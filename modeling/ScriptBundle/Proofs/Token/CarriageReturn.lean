import ScriptBundle.Proofs.Token.Lookahead

/-!
# Lexemes in a text with other line ends

In `Text.crlf` a carriage return stands in front of each line feed. What stands at the head of a text
stands there still, and goes on for as many carriage returns more as there are line ends in it. There is
one exception: a string or a pattern goes on past a line feed behind a backslash, but not past the two
code points of the other line end.

* `Text.crlf`: carriage returns in front of the line feeds;
* `chunkLength?_crlf`, `stringLength?_crlf` and the like: how far the parts of a lexeme go on;
* `Unclosed`, `read_eq_error_iff`: what is unterminated at the head of a source;
* `Head.crlf`, `Unclosed.crlf`: what stands at the head.
-/

namespace ScriptBundle

/-- The text with a carriage return in front of each line feed. -/
def Text.crlf (s : Text) : Text :=
  s.flatMap fun c : CodePoint => if c = '\n' then ['\r', '\n'] else [c]

namespace Text

variable {c : CodePoint} {s t : Text}

@[simp] theorem crlf_nil : crlf [] = [] := rfl

@[simp] theorem crlf_lineFeed (s : Text) :
    crlf (CodePoint.ofChar '\n' :: s) = CodePoint.ofChar '\r' :: CodePoint.ofChar '\n' :: crlf s := rfl

theorem crlf_cons (h : c ≠ '\n') (s : Text) : crlf (c :: s) = c :: crlf s := by
  rw [crlf, List.flatMap_cons, if_neg h]
  rfl

@[simp] theorem crlf_append (s t : Text) : crlf (s ++ t) = crlf s ++ crlf t := List.flatMap_append

/-- A text on one line stays as it is. -/
theorem crlf_of_not_mem (h : CodePoint.ofChar '\n' ∉ s) : crlf s = s := by
  induction s with
  | nil => rfl
  | cons c s ih =>
    rw [List.mem_cons, not_or] at h
    rw [crlf_cons (Ne.symm h.1), ih h.2]

theorem take_crlf (s : Text) (n : Nat) : (crlf s).take (crlf (s.take n)).length = crlf (s.take n) := by
  conv_lhs => rw [← List.take_append_drop n s, crlf_append, List.take_append_drop]
  exact List.take_left

theorem drop_crlf (s : Text) (n : Nat) : (crlf s).drop (crlf (s.take n)).length = crlf (s.drop n) := by
  conv_lhs => rw [← List.take_append_drop n s, crlf_append, List.take_append_drop]
  exact List.drop_left

/-- Only a line feed changes what the text starts with. -/
theorem headIs_crlf {x : CodePoint} (hx : x ≠ '\n' ∧ x ≠ '\r') (s : Text) :
    headIs (crlf s) x = headIs s x := by
  cases s with
  | nil => rfl
  | cons c s =>
    by_cases hc : c = '\n'
    · subst hc
      simp [headIs, hx.1.symm, hx.2.symm]
    · rw [crlf_cons hc]
      rfl

theorem isPrefixOf_crlf {v : Text} (hv : CodePoint.ofChar '\n' ∉ v ∧ CodePoint.ofChar '\r' ∉ v)
    (s : Text) : v.isPrefixOf (crlf s) = v.isPrefixOf s := by
  induction v generalizing s with
  | nil => simp [List.isPrefixOf]
  | cons b v ih =>
    simp only [List.mem_cons, not_or] at hv
    cases s with
    | nil => rfl
    | cons c s =>
      by_cases hc : c = '\n'
      · subst hc
        simp [List.isPrefixOf, beq_eq_false_iff_ne.2 (Ne.symm hv.1.1),
          beq_eq_false_iff_ne.2 (Ne.symm hv.2.1)]
      · rw [crlf_cons hc, List.isPrefixOf, List.isPrefixOf, ih ⟨hv.1.2, hv.2.2⟩]

/-- What goes on within a line does not go on past it. -/
theorem takeWhile_crlf {p : CodePoint → Bool} (hp : p '\n' = false) (hp' : p '\r' = false) (s : Text) :
    (crlf s).takeWhile p = s.takeWhile p := by
  induction s with
  | nil => rfl
  | cons c s ih =>
    by_cases hc : c = '\n'
    · subst hc
      simp [hp, hp']
    · rw [crlf_cons hc, List.takeWhile_cons, List.takeWhile_cons, ih]

theorem not_mem_takeWhile {p : CodePoint → Bool} (hp : p '\n' = false) (s : Text) :
    CodePoint.ofChar '\n' ∉ s.takeWhile p := fun h => by
  have := List.all_eq_true.1 s.all_takeWhile _ h
  rw [hp] at this
  cases this

end Text

namespace Lexeme

open Text (crlf)

variable {operand inClass : Bool} {c quote : CodePoint} {s : Text} {n : Nat}

/-- How far the first `n` code points go on with the other line ends. -/
abbrev crlfLength (s : Text) (n : Nat) : Nat := (crlf (s.take n)).length

theorem crlfLength_cons (hc : c ≠ '\n') (s : Text) (n : Nat) :
    crlfLength (c :: s) (n + 1) = crlfLength s n + 1 := by
  rw [crlfLength, List.take_succ_cons, Text.crlf_cons hc, List.length_cons]

theorem crlfLength_lineFeed (s : Text) (n : Nat) :
    crlfLength (CodePoint.ofChar '\n' :: s) (n + 1) = crlfLength s n + 2 := by
  rw [crlfLength, List.take_succ_cons, Text.crlf_lineFeed, List.length_cons, List.length_cons]

/-- Whether the first `n` code points stand on one line. -/
def onLine (s : Text) (n : Nat) : Bool := CodePoint.ofChar '\n' ∉ s.take n

theorem onLine_cons (hc : c ≠ '\n') (s : Text) (n : Nat) : onLine (c :: s) (n + 1) = onLine s n := by
  simp [onLine, Ne.symm hc]

theorem crlfLength_of_onLine (h : onLine s n) (hn : n ≤ s.length) : crlfLength s n = n := by
  rw [crlfLength, Text.crlf_of_not_mem (of_decide_eq_true h), List.length_take_of_le hn]

/-! ### The parts of a lexeme -/

theorem commentLength?_cons (hc : c ≠ '*') (s : Text) :
    commentLength? (c :: s) = (commentLength? s).map (· + 1) := by
  rw [commentLength?, if_neg (by simp [hc])]

theorem commentLength?_crlf (s : Text) :
    commentLength? (crlf s) = (commentLength? s).map (crlfLength s) := by
  induction s with
  | nil => rfl
  | cons c s ih =>
    by_cases hc : c = '\n'
    · subst hc
      rw [Text.crlf_lineFeed, commentLength?_cons (by decide), commentLength?_cons (by decide),
        commentLength?_cons (by decide), ih]
      simp only [Option.map_map]
      exact congrArg (Option.map · _) (funext fun n => (crlfLength_lineFeed s n).symm)
    · rw [Text.crlf_cons hc, commentLength?, commentLength?, Text.headIs_crlf (by decide), ih]
      split
      · next hclose =>
        simp only [Bool.and_eq_true] at hclose
        obtain ⟨r, rfl⟩ := eq_cons_of_headIs hclose.2
        rw [Option.map_some, crlfLength_cons hc, crlfLength_cons (by decide), crlfLength]
        rfl
      · simp only [Option.map_map]
        exact congrArg (Option.map · _) (funext fun n => (crlfLength_cons hc s n).symm)

theorem chunkLength?_crlf (s : Text) :
    chunkLength? (crlf s) = (chunkLength? s).map fun (e, n) => (e, crlfLength s n) := by
  have hmap : ∀ {f g : ChunkEnd × Nat → ChunkEnd × Nat} (o : Option (ChunkEnd × Nat)),
      (∀ e n, f (e, n) = g (e, n)) → o.map f = o.map g := fun o h =>
    congrArg (Option.map · o) (funext fun r => h r.1 r.2)
  fun_induction chunkLength? s with
  | case1 | case2 => rfl
  | case3 d s ih =>
    rw [Text.crlf_cons (by decide), Option.map_map]
    by_cases hd : d = '\n'
    · subst hd
      rw [Text.crlf_lineFeed, chunkLength?_escape,
        chunkLength?_cons (by decide) (fun h => absurd h (by decide)), ih, Option.map_map, Option.map_map]
      refine hmap _ fun e n => congrArg (Prod.mk e) (?_ : crlfLength s n + 1 + 2 = crlfLength _ (n + 2))
      rw [crlfLength_cons (by decide), crlfLength_lineFeed]
    · rw [Text.crlf_cons hd, chunkLength?_escape, ih, Option.map_map]
      refine hmap _ fun e n => congrArg (Prod.mk e) (?_ : crlfLength s n + 2 = crlfLength _ (n + 2))
      rw [crlfLength_cons (by decide), crlfLength_cons hd]
  | case4 s hb =>
    rw [Text.crlf_cons (by decide), chunkLength?.eq_def]
    rfl
  | case5 c s hb hq hd =>
    obtain ⟨rfl, hs⟩ : c = '$' ∧ Text.headIs s '{' := by simpa using hd
    obtain ⟨s, rfl⟩ := eq_cons_of_headIs hs
    rw [Text.crlf_cons (by decide), Text.crlf_cons (by decide), chunkLength?.eq_def]
    rfl
  | case6 c s hb hq hd ih =>
    rw [Option.map_map]
    by_cases hc : c = '\n'
    · subst hc
      rw [Text.crlf_lineFeed, chunkLength?_cons (by decide) (fun h => absurd h (by decide)),
        chunkLength?_cons (by decide) (fun h => absurd h (by decide)), ih,
        Option.map_map, Option.map_map]
      refine hmap _ fun e n => congrArg (Prod.mk e) (?_ : crlfLength s n + 1 + 1 = crlfLength _ (n + 1))
      rw [crlfLength_lineFeed]
    · have hopen : c = '$' → Text.headIs (crlf s) '{' = false := by
        rw [Text.headIs_crlf (by decide)]
        simpa using hd
      rw [Text.crlf_cons hc, chunkLength?_cons ⟨hb, hq⟩ hopen, ih,
        Option.map_map]
      refine hmap _ fun e n => congrArg (Prod.mk e) (?_ : crlfLength s n + 1 = crlfLength _ (n + 1))
      rw [crlfLength_cons hc]

theorem filter_onLine_cons (hc : c ≠ '\n') (s : Text) (o : Option Nat) :
    (o.map (· + 1)).filter (onLine (c :: s)) = (o.filter (onLine s)).map (· + 1) := by
  rw [Option.filter_map]
  exact congrArg (fun p => (o.filter p).map _) (funext (onLine_cons hc s))

theorem filter_onLine_lineFeed (s : Text) (o : Option Nat) :
    (o.map (· + 1)).filter (onLine (CodePoint.ofChar '\n' :: s)) = none := by
  cases o with
  | none => rfl
  | some n => simp [onLine]

theorem stringLength?_cons (hc : c ≠ '\n' ∧ c ≠ '\\' ∧ c ≠ quote) (s : Text) :
    stringLength? quote (c :: s) = (stringLength? quote s).map (· + 1) := by
  conv_lhs => unfold stringLength?
  rw [if_neg hc.1, if_neg hc.2.1, if_neg hc.2.2]

theorem stringLength?_lineFeed (quote : CodePoint) (s : Text) :
    stringLength? quote (CodePoint.ofChar '\n' :: s) = none := by
  unfold stringLength?
  rfl

theorem stringLength?_escape (quote d : CodePoint) (s : Text) :
    stringLength? quote (CodePoint.ofChar '\\' :: d :: s) = (stringLength? quote s).map (· + 2) := by
  conv_lhs => unfold stringLength?
  rfl

theorem stringLength?_crlf (hq : quote ≠ '\r') (s : Text) :
    stringLength? quote (crlf s) = (stringLength? quote s).filter (onLine s) := by
  fun_induction stringLength? quote s with
  | case1 | case3 => rfl
  | case2 s =>
    rw [Text.crlf_lineFeed, stringLength?_cons ⟨by decide, by decide, hq.symm⟩, stringLength?_lineFeed]
    rfl
  | case4 a s hn ih =>
    rw [Text.crlf_cons (by decide), show (· + 2 : Nat → Nat) = (· + 1) ∘ (· + 1) from rfl,
      ← Option.map_map, filter_onLine_cons (by decide)]
    by_cases ha : a = '\n'
    · -- The backslash takes the carriage return only.
      subst ha
      rw [Text.crlf_lineFeed, stringLength?_escape, stringLength?_lineFeed, filter_onLine_lineFeed]
      rfl
    · rw [Text.crlf_cons ha, stringLength?_escape, ih, filter_onLine_cons ha, Option.map_map]
      rfl
  | case5 s hn hb =>
    rw [Text.crlf_cons hn]
    conv_lhs => unfold stringLength?
    rw [if_neg hn, if_neg hb, if_pos rfl, Option.filter_some, if_pos (by simp [onLine, Ne.symm hn])]
  | case6 c s hn hb hq' ih =>
    rw [Text.crlf_cons hn, stringLength?_cons ⟨hn, hb, hq'⟩, ih, filter_onLine_cons hn]

theorem patternLength?_lineFeed (inClass : Bool) (s : Text) :
    patternLength? inClass (CodePoint.ofChar '\n' :: s) = none := by
  unfold patternLength?
  rfl

theorem patternLength?_escape (inClass : Bool) (d : CodePoint) (s : Text) :
    patternLength? inClass (CodePoint.ofChar '\\' :: d :: s) =
      (patternLength? inClass s).map (· + 2) := by
  conv_lhs => unfold patternLength?
  rfl

theorem patternLength?_return (inClass : Bool) (s : Text) :
    patternLength? inClass (CodePoint.ofChar '\r' :: CodePoint.ofChar '\n' :: s) = none := by
  unfold patternLength?
  cases inClass <;> exact congrArg (Option.map _) (patternLength?_lineFeed _ s)

theorem patternLength?_crlf (inClass : Bool) (s : Text) :
    patternLength? inClass (crlf s) = (patternLength? inClass s).filter (onLine s) := by
  fun_induction patternLength? inClass s with
  | case1 | case3 => rfl
  | case2 inClass s => rw [Text.crlf_lineFeed, patternLength?_return, Option.filter_none]
  | case4 inClass a s hn ih =>
    rw [Text.crlf_cons (by decide), show (· + 2 : Nat → Nat) = (· + 1) ∘ (· + 1) from rfl,
      ← Option.map_map, filter_onLine_cons (by decide)]
    by_cases ha : a = '\n'
    · subst ha
      rw [Text.crlf_lineFeed, patternLength?_escape, patternLength?_lineFeed, filter_onLine_lineFeed]
      rfl
    · rw [Text.crlf_cons ha, patternLength?_escape, ih, filter_onLine_cons ha, Option.map_map]
      rfl
  | case5 inClass s hn hb ih =>
    rw [Text.crlf_cons hn, filter_onLine_cons hn, ← ih]
    conv_lhs => unfold patternLength?
    rfl
  | case6 inClass s hn hb ho ih =>
    rw [Text.crlf_cons hn, filter_onLine_cons hn, ← ih]
    conv_lhs => unfold patternLength?
    rfl
  | case7 inClass c s hn hb ho hc hs =>
    rw [Text.crlf_cons hn, Option.filter_some, if_pos (by simp [onLine, Ne.symm hn])]
    conv_lhs => unfold patternLength?
    rw [if_neg hn, if_neg hb, if_neg ho, if_neg hc, if_pos hs]
  | case8 inClass c s hn hb ho hc hs ih =>
    rw [Text.crlf_cons hn, filter_onLine_cons hn, ← ih]
    conv_lhs => unfold patternLength?
    rw [if_neg hn, if_neg hb, if_neg ho, if_neg hc, if_neg hs]

theorem numberLength_crlf (hexadecimal : Bool) (prev : CodePoint) (s : Text) :
    numberLength hexadecimal prev (crlf s) = numberLength hexadecimal prev s := by
  have hstop : ∀ {d : CodePoint}, d = '\n' ∨ d = '\r' → ∀ (prev : CodePoint) (t : Text),
      numberLength hexadecimal prev (d :: t) = 0 := by
    rintro d (rfl | rfl) prev t
    all_goals
      rw [numberLength, if_neg (by decide), if_neg (by simp +decide)]
  induction s generalizing prev with
  | nil => rfl
  | cons c s ih =>
    by_cases hc : c = '\n'
    · subst hc
      rw [Text.crlf_lineFeed, hstop (.inr rfl), hstop (.inl rfl)]
    · rw [Text.crlf_cons hc, numberLength, numberLength, ih]

theorem startsNumber_crlf (c : CodePoint) (s : Text) : startsNumber c (crlf s) = startsNumber c s := by
  cases s with
  | nil => rfl
  | cons d s =>
    by_cases hd : d = '\n'
    · subst hd
      rfl
    · rw [Text.crlf_cons hd]
      rfl

theorem punctuator_crlf (hc : c ≠ '\n') (s : Text) : punctuator c (crlf s) = punctuator c s := by
  have hplain : ∀ op ∈ operators, CodePoint.ofChar '\n' ∉ op ∧ CodePoint.ofChar '\r' ∉ op := by
    decide
  unfold punctuator
  rw [← Text.crlf_cons hc, List.find?_congr fun op hop => Text.isPrefixOf_crlf (hplain op hop) (c :: s)]

/-! ### What stands on one line -/

theorem onLine_takeWhile {p : CodePoint → Bool} (hp : p '\n' = false) (s : Text) :
    onLine s (s.takeWhile p).length := by
  have hfront := List.takeWhile_prefix (l := s) p
  have htake := List.prefix_iff_eq_take.1 hfront
  simpa only [onLine, ← htake, decide_eq_true_eq] using Text.not_mem_takeWhile hp s

theorem onLine_numberLength (hexadecimal : Bool) (prev : CodePoint) (s : Text) :
    onLine s (numberLength hexadecimal prev s) := by
  fun_induction numberLength hexadecimal prev s with
  | case1 | case4 => rfl
  | case2 prev c s hc ih =>
    rwa [onLine_cons]
    rintro rfl
    exact absurd hc (by decide)
  | case3 prev c s hc hs ih =>
    rwa [onLine_cons]
    rintro rfl
    simp +decide at hs

theorem onLine_punctuator (c : CodePoint) (s : Text) : onLine s (punctuator c s).2 := by
  have hplain : ∀ op ∈ operators, CodePoint.ofChar '\n' ∉ op ∧ op ≠ [] := by decide
  unfold punctuator
  split
  · next op hop =>
    obtain ⟨hmem, hne⟩ := hplain op (List.mem_of_find?_eq_some hop)
    obtain ⟨b, v, rfl⟩ := List.exists_cons_of_ne_nil hne
    have hprefix : (b :: v).isPrefixOf (c :: s) := by simpa using List.find?_some hop
    have htake := List.prefix_iff_eq_take.1 (List.cons_prefix_cons.1 (List.isPrefixOf_iff_prefix.1 hprefix)).2
    show onLine s v.length
    rw [onLine, ← htake]
    simpa using fun h => hmem (List.mem_cons_of_mem b h)
  · rfl

/-- Only template literals, strings and regular expressions hold line feeds. -/
theorem Head.onLine {k : TokenKind} (h : Head operand c s (token k) n)
    (hk : k ≠ .template ∧ k ≠ .string ∧ k ≠ .regex) : onLine s n := by
  generalize hl : token k = l at h
  cases h with
  | space | line | block | opening => cases hl
  | word => exact onLine_takeWhile (by decide) s
  | number => exact onLine_numberLength ..
  | string => exact absurd (token.inj hl) hk.2.1
  | template => exact absurd (token.inj hl) hk.1
  | regex => exact absurd (token.inj hl) hk.2.2
  | mark => exact onLine_punctuator c s

/-! ### What stands at a head -/

/-- What stands at the head of a text stands there with the other line ends, but for a comment in a line,
and for a string or a pattern that holds a line end. -/
theorem Head.crlf {l : Lexeme} (h : Head operand c s l n) (hc : c ≠ '\n')
    (hline : c = '/' → Text.headIs s '/' = false)
    (hon : l = token .string ∨ l = token .regex → Lexeme.onLine s n) :
    Head operand c (crlf s) l (crlfLength s n) := by
  have hle := h.length_le
  cases h with
  | space h => exact .space h
  | line hc' hs =>
    rw [hline hc'] at hs
    cases hs
  | @block m hc' hs hm =>
    obtain ⟨r, rfl⟩ := eq_cons_of_headIs hs
    rw [Nat.add_comm 1 m, crlfLength_cons (by decide), Text.crlf_cons (by decide), Nat.add_comm]
    refine .block hc' rfl ?_
    rw [List.tail_cons, commentLength?_crlf, show commentLength? r = some m from hm, Option.map_some]
  | word hword =>
    rw [crlfLength_of_onLine (onLine_takeWhile (by decide) s) hle,
      ← Text.takeWhile_crlf (p := inWord) (by decide) (by decide) s]
    exact .word hword
  | number hspace hword hnumber =>
    have hexadecimal : isHexadecimal c (Text.crlf s) = isHexadecimal c s := by
      rw [isHexadecimal, Text.headIs_crlf (by decide), Text.headIs_crlf (by decide)]
      rfl
    rw [crlfLength_of_onLine (onLine_numberLength ..) hle, ← numberLength_crlf, ← hexadecimal]
    exact .number hspace hword ((startsNumber_crlf c s).trans hnumber)
  | string hc' hm =>
    have hon := hon (.inl rfl)
    have hquote : c ≠ '\r' := by rcases hc' with rfl | rfl <;> decide
    rw [crlfLength_of_onLine hon hle]
    refine .string hc' ?_
    rw [stringLength?_crlf hquote, hm, Option.filter_some, if_pos hon]
  | template hc' hm => exact .template hc' (by rw [chunkLength?_crlf, hm]; rfl)
  | opening hc' hm => exact .opening hc' (by rw [chunkLength?_crlf, hm]; rfl)
  | @regex m hc' hs hb ho hm =>
    have hon := hon (.inr rfl)
    have hm' : Lexeme.onLine s m := by
      have htaken : s.take m <+: s.take (m + ((s.drop m).takeWhile (·.isIdentifierPart)).length) :=
        List.take_prefix_take_left (Nat.le_add_right ..)
      simpa only [Lexeme.onLine, decide_eq_true_eq] using fun hmem =>
        of_decide_eq_true hon (htaken.mem hmem)
    have hdrop : (Text.crlf s).drop m = Text.crlf (s.drop m) := by
      have := Text.drop_crlf s m
      rwa [show (Text.crlf (s.take m)).length = m from
        crlfLength_of_onLine hm' (patternLength?_le hm)] at this
    rw [crlfLength_of_onLine hon hle, ← Text.takeWhile_crlf (by decide) (by decide), ← hdrop]
    refine .regex hc' ?_ ?_ ho (by rw [patternLength?_crlf, hm, Option.filter_some, if_pos hm'])
    · rwa [Text.headIs_crlf (by decide)]
    · rwa [Text.headIs_crlf (by decide)]
  | mark hspace hword hnumber hquote hslash =>
    rw [crlfLength_of_onLine (onLine_punctuator c s) hle, ← punctuator_crlf hc]
    refine .mark hspace hword ((startsNumber_crlf c s).trans hnumber) hquote ?_
    rwa [Text.headIs_crlf (by decide), Text.headIs_crlf (by decide)]

/-- What starts at the head of `c :: s` has no end. -/
inductive Unclosed (operand : Bool) (c : CodePoint) (s : Text) : Unterminated → Prop
  | string (hc : c = '\'' ∨ c = '"') (h : stringLength? c s = none) : Unclosed operand c s .string
  | template (hc : c = '`') (h : chunkLength? s = none) : Unclosed operand c s .template
  | regex (hc : c = '/') (hline : Text.headIs s '/' = false) (hblock : Text.headIs s '*' = false)
      (ho : operand) (h : patternLength? false s = none) : Unclosed operand c s .regex
  | comment (hc : c = '/') (hs : Text.headIs s '*') (h : commentLength? s.tail = none) :
      Unclosed operand c s .comment

theorem read_eq_error_iff {cause : Unterminated} :
    read operand c s = .error cause ↔ Unclosed operand c s cause := by
  constructor
  · intro h
    unfold read at h
    split at h
    · cases h
    split at h
    · cases h
    next hline =>
    split at h
    · next hblock =>
      simp only [Bool.and_eq_true, decide_eq_true_eq] at hblock
      split at h
      · cases h
      · next hn => cases h; exact .comment hblock.1 hblock.2 hn
    next hblock =>
    split at h
    · cases h
    split at h
    · cases h
    split at h
    · next hquote =>
      split at h
      · cases h
      · next hn => cases h; exact .string (by simpa using hquote) hn
    split at h
    · next hquote =>
      split at h
      · cases h
      · cases h
      · next hn => cases h; exact .template hquote hn
    split at h
    · next hregex =>
      simp only [Bool.and_eq_true, decide_eq_true_eq] at hregex
      split at h
      · cases h
      · next hn =>
        cases h
        exact .regex hregex.1 (by simpa [hregex.1] using hline) (by simpa [hregex.1] using hblock)
          hregex.2 hn
    · cases h
  · intro h
    cases h with
    | string hc h =>
      have hc' : c ∈ separators ∧ isSpace c = false ∧ c ≠ '/' := by
        rcases hc with rfl | rfl <;> decide
      obtain ⟨hword, hnumber⟩ := not_starts_of_mem_separators hc'.1 s
      rw [read, if_neg (Bool.eq_false_iff.1 hc'.2.1), if_neg (not_headIs_of_ne fun h => absurd h hc'.2.2),
        if_neg (not_headIs_of_ne fun h => absurd h hc'.2.2),
        if_neg (show ¬ (c.isIdentifierStart || c = '\\') = true from Bool.eq_false_iff.1 hword),
        if_neg (show ¬ (c.isDigit || _) = true from Bool.eq_false_iff.1 hnumber),
        if_pos (by simpa using hc), h]
    | template hc h =>
      subst hc
      obtain ⟨hword, hnumber⟩ := not_starts_of_mem_separators (c := '`') (by decide) s
      rw [read, if_neg (by decide), if_neg (by simp +decide), if_neg (by simp +decide),
        if_neg (by decide),
        if_neg (show ¬ (CodePoint.isDigit _ || _) = true from Bool.eq_false_iff.1 hnumber),
        if_neg (by decide), if_pos rfl, h]
    | regex hc hline hblock ho h =>
      subst hc
      obtain ⟨hword, hnumber⟩ := not_starts_of_mem_separators (c := '/') (by decide) s
      rw [read, if_neg (by decide), if_neg (not_headIs_of_ne fun _ => hline),
        if_neg (not_headIs_of_ne fun _ => hblock), if_neg (by decide),
        if_neg (show ¬ (CodePoint.isDigit _ || _) = true from Bool.eq_false_iff.1 hnumber),
        if_neg (by decide), if_neg (by decide), if_pos (by simp [ho]), h]
    | comment hc hs h =>
      subst hc
      obtain ⟨r, rfl⟩ := eq_cons_of_headIs hs
      rw [read, if_neg (by decide), if_neg (not_headIs_of_ne fun _ => rfl), if_pos (by rw [hs]; rfl), h]

/-- What has no end has none with the other line ends. -/
theorem Unclosed.crlf {cause : Unterminated} (h : Unclosed operand c s cause) :
    Unclosed operand c (Text.crlf s) cause := by
  cases h with
  | string hc h =>
    have hquote : c ≠ '\r' := by rcases hc with rfl | rfl <;> decide
    exact .string hc (by rw [stringLength?_crlf hquote, h]; rfl)
  | template hc h => exact .template hc (by rw [chunkLength?_crlf, h]; rfl)
  | regex hc hline hblock ho h =>
    refine .regex hc ?_ ?_ ho (by rw [patternLength?_crlf, h]; rfl)
    · rwa [Text.headIs_crlf (by decide)]
    · rwa [Text.headIs_crlf (by decide)]
  | comment hc hs h =>
    obtain ⟨r, rfl⟩ := eq_cons_of_headIs hs
    rw [List.tail_cons] at h
    rw [Text.crlf_cons (by decide)]
    exact .comment hc rfl (by rw [List.tail_cons, commentLength?_crlf, h]; rfl)

/-- A string or a pattern that holds a line end has no end with the other line ends. -/
theorem Head.unclosed {k : TokenKind} (h : Head operand c s (token k) n)
    (hk : k = .string ∨ k = .regex) (hon : Lexeme.onLine s n = false) :
    ∃ cause, Unclosed operand c (Text.crlf s) cause := by
  generalize hl : token k = l at h
  cases h with
  | space | line | block | opening => cases hl
  | word => exact absurd (onLine_takeWhile (by decide) s) (Bool.eq_false_iff.1 hon)
  | number => exact absurd (onLine_numberLength ..) (Bool.eq_false_iff.1 hon)
  | mark => exact absurd (onLine_punctuator c s) (Bool.eq_false_iff.1 hon)
  | template => rcases hk with rfl | rfl <;> cases hl
  | string hc hm =>
    have hquote : c ≠ '\r' := by rcases hc with rfl | rfl <;> decide
    refine ⟨_, .string hc ?_⟩
    rw [stringLength?_crlf hquote, hm, Option.filter_some, if_neg (by simp [hon])]
  | @regex m hc hline hblock ho hm =>
    -- The line end is in the pattern, since the flags behind it hold none.
    have hm' : Lexeme.onLine s m = false := by
      have hfront := List.takeWhile_prefix (l := s.drop m) (·.isIdentifierPart)
      have htake := List.prefix_iff_eq_take.1 hfront
      have hflags := Text.not_mem_takeWhile (p := (·.isIdentifierPart)) (by decide) (s.drop m)
      simp only [Lexeme.onLine, decide_eq_false_iff_not, not_not, List.take_add, ← htake] at hon ⊢
      exact (List.mem_append.1 hon).resolve_right hflags
    refine ⟨_, .regex hc ?_ ?_ ho ?_⟩
    · rwa [Text.headIs_crlf (by decide)]
    · rwa [Text.headIs_crlf (by decide)]
    · rw [patternLength?_crlf, hm, Option.filter_some, if_neg (by simp [hm'])]

end Lexeme

end ScriptBundle
