import Mathlib.Data.List.Find
import Mathlib.Data.List.TakeWhile
import ScriptBundle.Token.Lexeme

/-!
# How far a lexeme looks ahead

A lexeme is read with the whole rest of the source in sight, but little of it matters. What is between
quotes or in a comment depends on nothing behind its end; a word, a number or an operator looks one or
two code points further, and never past a separator. So a lexeme stays what it is when the source
changes behind the next separator.

* `separators`, `Alike`: texts that agree up to a separator;
* `stringLength?_take` and the like: what is closed needs nothing behind it;
* `Head`, `read_eq_ok_iff`: what stands at the head of a source, by the kind of its beginning;
* `Stable`, `Alike.stable`, `stable_nil`: texts in front of which a lexeme stays what it is;
* `Head.of_operand`: what may follow matters only to a slash;
* `Head.closed`, `head_of_mem_sealedMarks`: closed gaps and sealed punctuators in front of anything.
-/

namespace ScriptBundle

namespace Lexeme

/-- White space, and the punctuators, quotes and slashes that no operator, word or number goes on
with. -/
def separators : List CodePoint :=
  ([' ', '\t', '\r', '\n', '\x0b', '\x0c', '\ufeff', '\u00a0', '\u2028', '\u2029'] :
      List CodePoint) ++
    (['/', ';', ',', ':', '(', ')', '{', '}', '[', ']', '\'', '"', '`'] : List CodePoint)

/-- Two texts agree altogether, or up to a separator. -/
def Alike (a a' : Text) : Prop :=
  a = a' ∨ ∃ v d r r', d ∈ separators ∧ a = v ++ d :: r ∧ a' = v ++ d :: r'

theorem Alike.append {a a' : Text} (h : Alike a a') (w : Text) : Alike (w ++ a) (w ++ a') := by
  rcases h with rfl | ⟨v, d, r, r', hd, rfl, rfl⟩
  · exact .inl rfl
  · exact .inr ⟨w ++ v, d, r, r', hd, (List.append_assoc ..).symm, (List.append_assoc ..).symm⟩

/-- A text that ends in a separator hides what is behind it. -/
theorem alike_of_getLast? {w : Text} {d : CodePoint} (h : w.getLast? = some d)
    (hd : d ∈ separators) (r r' : Text) : Alike (w ++ r) (w ++ r') := by
  obtain ⟨v, rfl⟩ := List.getLast?_eq_some_iff.1 h
  exact .inr ⟨v, d, r, r', hd, by simp, by simp⟩

theorem mem_separators_of_isSpace {c : CodePoint} (h : isSpace c) : c ∈ separators :=
  List.mem_append_left
    (['/', ';', ',', ':', '(', ')', '{', '}', '[', ']', '\'', '"', '`'] : List CodePoint)
    (of_decide_eq_true h)

/-- No word and no number goes on with a separator. -/
theorem not_continues_of_mem_separators : ∀ d ∈ separators, inWord d = false ∧
    d.isIdentifierPart = false ∧ (d.isAlphanumeric || d = '_' || d = '.') = false ∧
    (d = '+' || d = '-') = false := by
  decide +kernel

/-- No operator goes on with a separator. -/
theorem not_mem_tail_of_mem_operators : ∀ op ∈ operators, ∀ d ∈ separators, d ∉ op.tail := by
  decide

/-! ### What is closed -/

theorem stringLength?_take {quote : CodePoint} {s : Text} {n : Nat}
    (h : stringLength? quote s = some n) (r : Text) :
    stringLength? quote (s.take n ++ r) = some n := by
  fun_induction stringLength? quote s generalizing n with
  | case1 => cases h
  | case2 => cases h
  | case3 => cases h
  | case4 a s hn ih =>
    obtain ⟨m, hm, rfl⟩ := Option.map_eq_some_iff.1 h
    change stringLength? quote (CodePoint.ofChar '\\' :: a :: (s.take m ++ r)) = some (m + 2)
    unfold stringLength?
    rw [if_neg hn, if_pos rfl]
    exact congrArg (Option.map (· + 2)) (ih hm)
  | case5 s hn hb =>
    cases h
    change stringLength? quote (quote :: r) = some 1
    unfold stringLength?
    rw [if_neg hn, if_neg hb, if_pos rfl]
  | case6 c s hn hb hq ih =>
    obtain ⟨m, hm, rfl⟩ := Option.map_eq_some_iff.1 h
    change stringLength? quote (c :: (s.take m ++ r)) = some (m + 1)
    unfold stringLength?
    rw [if_neg hn, if_neg hb, if_neg hq, ih hm]
    rfl

theorem patternLength?_take {inClass : Bool} {s : Text} {n : Nat}
    (h : patternLength? inClass s = some n) (r : Text) :
    patternLength? inClass (s.take n ++ r) = some n := by
  fun_induction patternLength? inClass s generalizing n with
  | case1 => cases h
  | case2 => cases h
  | case3 => cases h
  | case4 inClass a s hn ih =>
    obtain ⟨m, hm, rfl⟩ := Option.map_eq_some_iff.1 h
    change patternLength? inClass (CodePoint.ofChar '\\' :: a :: (s.take m ++ r)) = some (m + 2)
    unfold patternLength?
    rw [if_neg hn, if_pos rfl]
    exact congrArg (Option.map (· + 2)) (ih hm)
  | case5 inClass s hn hb ih =>
    obtain ⟨m, hm, rfl⟩ := Option.map_eq_some_iff.1 h
    change patternLength? inClass (CodePoint.ofChar '[' :: (s.take m ++ r)) = some (m + 1)
    unfold patternLength?
    rw [if_neg hn, if_neg hb, if_pos rfl, ih hm]
    rfl
  | case6 inClass s hn hb ho ih =>
    obtain ⟨m, hm, rfl⟩ := Option.map_eq_some_iff.1 h
    change patternLength? inClass (CodePoint.ofChar ']' :: (s.take m ++ r)) = some (m + 1)
    unfold patternLength?
    rw [if_neg hn, if_neg hb, if_neg ho, if_pos rfl, ih hm]
    rfl
  | case7 inClass c s hn hb ho hc hs =>
    cases h
    change patternLength? inClass (c :: r) = some 1
    unfold patternLength?
    rw [if_neg hn, if_neg hb, if_neg ho, if_neg hc, if_pos hs]
  | case8 inClass c s hn hb ho hc hs ih =>
    obtain ⟨m, hm, rfl⟩ := Option.map_eq_some_iff.1 h
    change patternLength? inClass (c :: (s.take m ++ r)) = some (m + 1)
    unfold patternLength?
    rw [if_neg hn, if_neg hb, if_neg ho, if_neg hc, if_neg hs, ih hm]
    rfl

theorem eq_cons_of_headIs {s : Text} {c : CodePoint} (h : Text.headIs s c) : ∃ r, s = c :: r := by
  cases s with
  | nil => cases h
  | cons d r => exact ⟨r, congrArg (· :: r) (Option.some.inj (of_decide_eq_true h))⟩

/-- The chunk of a template literal, and a comment, go on past every code point that needs the next one
to be told. -/
theorem headIs_take_append {s : Text} {n : Nat} (hn : 0 < n) (hs : s ≠ []) (r : Text)
    (c : CodePoint) : Text.headIs (s.take n ++ r) c = Text.headIs s c := by
  obtain ⟨d, s, rfl⟩ := List.exists_cons_of_ne_nil hs
  obtain ⟨m, rfl⟩ := Nat.exists_eq_succ_of_ne_zero (Nat.ne_of_gt hn)
  rfl

theorem pos_of_chunkLength? {s : Text} {e : ChunkEnd} {n : Nat} (h : chunkLength? s = some (e, n)) :
    0 < n ∧ s ≠ [] := by
  fun_induction chunkLength? s generalizing n with
  | case1 => cases h
  | case2 => cases h
  | case3 =>
    obtain ⟨_, _, heq⟩ := Option.map_eq_some_iff.1 h
    cases heq
    exact ⟨Nat.succ_pos _, List.cons_ne_nil _ _⟩
  | case4 | case5 =>
    cases h
    exact ⟨Nat.succ_pos _, List.cons_ne_nil _ _⟩
  | case6 =>
    obtain ⟨_, _, heq⟩ := Option.map_eq_some_iff.1 h
    cases heq
    exact ⟨Nat.succ_pos _, List.cons_ne_nil _ _⟩

theorem chunkLength?_cons {c : CodePoint} {s : Text} (hc : c ≠ '\\' ∧ c ≠ '`')
    (hd : c = '$' → Text.headIs s '{' = false) :
    chunkLength? (c :: s) = (chunkLength? s).map fun (e, n) => (e, n + 1) := by
  have hopen : ¬ (c = '$' && Text.headIs s '{') = true := by simpa using hd
  conv_lhs => unfold chunkLength?
  rw [if_neg hc.1, if_neg hc.2, if_neg hopen]

theorem chunkLength?_escape (c : CodePoint) (s : Text) :
    chunkLength? (CodePoint.ofChar '\\' :: c :: s) =
      (chunkLength? s).map fun (e, n) => (e, n + 2) := by
  rw [chunkLength?, if_pos rfl]

theorem chunkLength?_take {s : Text} {e : ChunkEnd} {n : Nat} (h : chunkLength? s = some (e, n))
    (r : Text) : chunkLength? (s.take n ++ r) = some (e, n) := by
  fun_induction chunkLength? s generalizing n with
  | case1 => cases h
  | case2 => cases h
  | case3 d s ih =>
    obtain ⟨⟨e', m⟩, hm, heq⟩ := Option.map_eq_some_iff.1 h
    cases heq
    change chunkLength? (CodePoint.ofChar '\\' :: d :: (s.take m ++ r)) = some (e, m + 2)
    unfold chunkLength?
    rw [if_pos rfl]
    exact congrArg (Option.map fun x : ChunkEnd × Nat => (x.1, x.2 + 2)) (ih hm)
  | case4 s hb =>
    cases h
    change chunkLength? (CodePoint.ofChar '`' :: r) = some (.closed, 1)
    unfold chunkLength?
    rw [if_neg hb, if_pos rfl]
  | case5 c s hb hq hd =>
    cases h
    obtain ⟨rfl, hs⟩ : c = '$' ∧ Text.headIs s '{' := by simpa using hd
    obtain ⟨s, rfl⟩ := eq_cons_of_headIs hs
    change chunkLength? (CodePoint.ofChar '$' :: CodePoint.ofChar '{' :: r) = _
    unfold chunkLength?
    rw [if_neg hb, if_neg hq]
    rfl
  | case6 c s hb hq hd ih =>
    obtain ⟨⟨e', m⟩, hm, heq⟩ := Option.map_eq_some_iff.1 h
    cases heq
    obtain ⟨hpos, hs⟩ := pos_of_chunkLength? hm
    change chunkLength? (c :: (s.take m ++ r)) = some (e, m + 1)
    unfold chunkLength?
    rw [if_neg hb, if_neg hq, headIs_take_append hpos hs, if_neg hd]
    exact congrArg (Option.map fun x : ChunkEnd × Nat => (x.1, x.2 + 1)) (ih hm)

theorem commentLength?_take {s : Text} {n : Nat} (h : commentLength? s = some n) (r : Text) :
    commentLength? (s.take n ++ r) = some n := by
  have hpos : ∀ {s : Text} {n}, commentLength? s = some n → 0 < n ∧ s ≠ [] := by
    intro s n h
    fun_induction commentLength? s generalizing n with
    | case1 => cases h
    | case2 =>
      cases h
      exact ⟨Nat.succ_pos _, List.cons_ne_nil _ _⟩
    | case3 =>
      obtain ⟨_, _, rfl⟩ := Option.map_eq_some_iff.1 h
      exact ⟨Nat.succ_pos _, List.cons_ne_nil _ _⟩
  fun_induction commentLength? s generalizing n with
  | case1 => cases h
  | case2 c s hc =>
    cases h
    obtain ⟨rfl, hs⟩ : c = '*' ∧ Text.headIs s '/' := by simpa using hc
    obtain ⟨s, rfl⟩ := eq_cons_of_headIs hs
    rfl
  | case3 c s hc ih =>
    obtain ⟨m, hm, rfl⟩ := Option.map_eq_some_iff.1 h
    change commentLength? (c :: (s.take m ++ r)) = some (m + 1)
    unfold commentLength?
    rw [headIs_take_append (hpos hm).1 (hpos hm).2, if_neg hc, ih hm]
    rfl

/-! ### Inside the source -/

theorem stringLength?_le {quote : CodePoint} {s : Text} {n : Nat}
    (h : stringLength? quote s = some n) : n ≤ s.length := by
  fun_induction stringLength? quote s generalizing n with
  | case1 | case2 | case3 => cases h
  | case5 =>
    cases h
    exact Nat.succ_le_succ (Nat.zero_le _)
  | case4 _ _ _ ih | case6 _ _ _ _ _ ih =>
    obtain ⟨m, hm, rfl⟩ := Option.map_eq_some_iff.1 h
    have := ih hm
    simp only [List.length_cons]
    omega

theorem patternLength?_le {inClass : Bool} {s : Text} {n : Nat}
    (h : patternLength? inClass s = some n) : n ≤ s.length := by
  fun_induction patternLength? inClass s generalizing n with
  | case1 | case2 | case3 => cases h
  | case7 =>
    cases h
    exact Nat.succ_le_succ (Nat.zero_le _)
  | case4 _ _ _ _ ih | case5 _ _ _ _ ih | case6 _ _ _ _ _ ih | case8 _ _ _ _ _ _ _ _ ih =>
    obtain ⟨m, hm, rfl⟩ := Option.map_eq_some_iff.1 h
    have := ih hm
    simp only [List.length_cons]
    omega

theorem chunkLength?_le {s : Text} {e : ChunkEnd} {n : Nat} (h : chunkLength? s = some (e, n)) :
    n ≤ s.length := by
  fun_induction chunkLength? s generalizing n with
  | case1 | case2 => cases h
  | case4 =>
    cases h
    exact Nat.succ_le_succ (Nat.zero_le _)
  | case5 c s _ _ hd =>
    cases h
    simp only [Bool.and_eq_true] at hd
    obtain ⟨s, rfl⟩ := eq_cons_of_headIs hd.2
    simp
  | case3 _ _ ih | case6 _ _ _ _ _ ih =>
    obtain ⟨⟨e', m⟩, hm, heq⟩ := Option.map_eq_some_iff.1 h
    cases heq
    have := ih hm
    simp only [List.length_cons]
    omega

theorem commentLength?_le {s : Text} {n : Nat} (h : commentLength? s = some n) : n ≤ s.length := by
  fun_induction commentLength? s generalizing n with
  | case1 => cases h
  | case2 c s hc =>
    cases h
    simp only [Bool.and_eq_true] at hc
    obtain ⟨s, rfl⟩ := eq_cons_of_headIs hc.2
    simp
  | case3 c s hc ih =>
    obtain ⟨m, hm, rfl⟩ := Option.map_eq_some_iff.1 h
    simpa using ih hm

theorem numberLength_le (hexadecimal : Bool) (prev : CodePoint) (s : Text) :
    numberLength hexadecimal prev s ≤ s.length := by
  fun_induction numberLength hexadecimal prev s with
  | case1 | case4 => exact Nat.zero_le _
  | case2 _ _ _ _ ih | case3 _ _ _ _ _ ih => exact Nat.succ_le_succ ih

theorem punctuator_le (c : CodePoint) (s : Text) : (punctuator c s).2 ≤ s.length := by
  unfold punctuator
  split
  · next op hop =>
    have hprefix : op.isPrefixOf (c :: s) = true := by simpa using List.find?_some hop
    have := (List.isPrefixOf_iff_prefix.1 hprefix).length_le
    simp only [List.length_cons] at this
    show op.length - 1 ≤ s.length
    omega
  · exact Nat.zero_le _

/-! ### Up to a separator -/

/-- How far a predicate holds, if that is known before the separator. -/
theorem takeWhile_append_cons {p : CodePoint → Bool} {u r : Text} {d : CodePoint}
    (h : ((u ++ d :: r).takeWhile p).length ≤ u.length) (r' : Text) :
    (u ++ d :: r').takeWhile p = (u ++ d :: r).takeWhile p := by
  induction u with
  | nil =>
    cases hd : p d with
    | true => simp [hd] at h
    | false => simp [hd]
  | cons a u ih =>
    cases ha : p a with
    | true =>
      simp only [List.cons_append, List.takeWhile_cons, ha, if_true, List.length_cons] at h ⊢
      rw [ih (by omega)]
    | false => simp [ha]

/-- A number ends in front of a separator as it does at the end of the source. -/
theorem numberLength_append_cons (hexadecimal : Bool) (prev : CodePoint) (u : Text)
    {d : CodePoint} (hd : d ∈ separators) (r : Text) :
    numberLength hexadecimal prev (u ++ d :: r) = numberLength hexadecimal prev u := by
  induction u generalizing prev with
  | nil =>
    obtain ⟨-, -, hpart, hsign⟩ := not_continues_of_mem_separators d hd
    simp only [List.nil_append, numberLength, hpart, hsign, Bool.false_and, Bool.false_eq_true,
      if_false]
  | cons a u ih => simp only [List.cons_append, numberLength, ih a]

/-- Whether an operator stands at the head is known before the next separator. -/
theorem isPrefixOf_append_cons {op : Text} (c : CodePoint) (u : Text) {d : CodePoint}
    (hd : d ∉ op.tail) (r : Text) :
    op.isPrefixOf (c :: (u ++ d :: r)) = op.isPrefixOf (c :: u) := by
  have htail : ∀ (v w : Text), d ∉ v → v.isPrefixOf (w ++ d :: r) = v.isPrefixOf w := by
    intro v w hv
    induction w generalizing v with
    | nil =>
      cases v with
      | nil => rfl
      | cons b v =>
        have hb : (b == d) = false := by
          simp only [beq_eq_false_iff_ne, ne_eq]
          rintro rfl
          exact hv List.mem_cons_self
        simp [List.isPrefixOf, hb]
    | cons a w ih =>
      cases v with
      | nil => rfl
      | cons b v =>
        simp only [List.cons_append, List.isPrefixOf, ih v fun hmem => hv (List.mem_cons_of_mem b hmem)]
  cases op with
  | nil => rfl
  | cons b v => simp only [List.isPrefixOf, htail v u hd]

theorem punctuator_append_cons (c : CodePoint) (u : Text) {d : CodePoint} (hd : d ∈ separators)
    (r : Text) : punctuator c (u ++ d :: r) = punctuator c u := by
  have hfind : operators.find? (·.isPrefixOf (c :: (u ++ d :: r))) =
      operators.find? (·.isPrefixOf (c :: u)) :=
    List.find?_congr fun op hop =>
      isPrefixOf_append_cons c u (not_mem_tail_of_mem_operators op hop d hd) r
  unfold punctuator
  rw [hfind]

/-! ### What stands at a head -/

/-- A word starts with the code point. -/
def startsWord (c : CodePoint) : Bool := c.isIdentifierStart || c = '\\'

/-- A number starts with `c :: s`. -/
def startsNumber (c : CodePoint) (s : Text) : Bool :=
  c.isDigit || (c = '.' && s.head?.any (·.isDigit))

/-- Whether a number that starts with `c :: s` is hexadecimal. -/
def isHexadecimal (c : CodePoint) (s : Text) : Bool :=
  c = '0' && (Text.headIs s 'x' || Text.headIs s 'X')

/-- The lexeme `l` stands at the head of `c :: s` and goes on behind `c` for the given length. -/
inductive Head (operand : Bool) (c : CodePoint) (s : Text) : Lexeme → Nat → Prop
  | space (h : isSpace c) : Head operand c s gap 0
  | line (hc : c = '/') (hs : Text.headIs s '/') :
      Head operand c s gap (1 + (s.tail.takeWhile inLineComment).length)
  | block {n : Nat} (hc : c = '/') (hs : Text.headIs s '*') (h : commentLength? s.tail = some n) :
      Head operand c s gap (1 + n)
  | word (h : startsWord c) :
      Head operand c s (token (wordKind (c :: s.takeWhile inWord))) (s.takeWhile inWord).length
  | number (hspace : isSpace c = false) (hword : startsWord c = false) (h : startsNumber c s) :
      Head operand c s (token .number) (numberLength (isHexadecimal c s) c s)
  | string {n : Nat} (hc : c = '\'' ∨ c = '"') (h : stringLength? c s = some n) :
      Head operand c s (token .string) n
  | template {n : Nat} (hc : c = '`') (h : chunkLength? s = some (.closed, n)) :
      Head operand c s (token .template) n
  | opening {n : Nat} (hc : c = '`') (h : chunkLength? s = some (.substitution, n)) :
      Head operand c s openTemplate n
  | regex {n : Nat} (hc : c = '/') (hline : Text.headIs s '/' = false)
      (hblock : Text.headIs s '*' = false) (ho : operand) (h : patternLength? false s = some n) :
      Head operand c s (token .regex) (n + ((s.drop n).takeWhile (·.isIdentifierPart)).length)
  | mark (hspace : isSpace c = false) (hword : startsWord c = false)
      (hnumber : startsNumber c s = false) (hquote : c ≠ '\'' ∧ c ≠ '"' ∧ c ≠ '`')
      (hslash : c = '/' → Text.headIs s '/' = false ∧ Text.headIs s '*' = false ∧ operand = false) :
      Head operand c s (token (punctuator c s).1) (punctuator c s).2

/-- A separator starts no word and no number. -/
theorem not_starts_of_mem_separators {c : CodePoint} (h : c ∈ separators) (s : Text) :
    startsWord c = false ∧ startsNumber c s = false := by
  have hall : ∀ d ∈ separators, startsWord d = false ∧ d.isDigit = false ∧ d ≠ '.' := by
    decide +kernel
  obtain ⟨hword, hdigit, hdot⟩ := hall c h
  exact ⟨hword, by simp [startsNumber, hdigit, hdot]⟩

section Read

variable {operand : Bool} {c : CodePoint} {s : Text} {l : Lexeme} {n : Nat}

/-- What the lexer finds stands at the head. -/
theorem head_of_read (h : read operand c s = .ok (l, n)) : Head operand c s l n := by
  -- One split for each test of the lexer, in its order. What a failed test excludes is kept, since a
  -- punctuator stands where all of them fail.
  unfold read at h
  split at h
  · next hspace => cases h; exact .space hspace
  next hspace =>
  split at h
  · next hline =>
    cases h
    simp only [Bool.and_eq_true, decide_eq_true_eq] at hline
    exact .line hline.1 hline.2
  next hline =>
  split at h
  · next hblock =>
    simp only [Bool.and_eq_true, decide_eq_true_eq] at hblock
    split at h
    · next n hn => cases h; exact .block hblock.1 hblock.2 hn
    · cases h
  next hblock =>
  have hslash : c = '/' → Text.headIs s '/' = false ∧ Text.headIs s '*' = false := by
    rintro rfl
    simpa using And.intro hline hblock
  replace hspace := Bool.eq_false_iff.2 hspace
  split at h
  · next hword => cases h; exact .word hword
  next hword =>
  replace hword : startsWord c = false := Bool.eq_false_iff.2 hword
  split at h
  · next hnumber => cases h; exact .number hspace hword hnumber
  next hnumber =>
  split at h
  · next hquote =>
    simp only [Bool.or_eq_true, decide_eq_true_eq] at hquote
    split at h
    · next n hn => cases h; exact .string hquote hn
    · cases h
  next hquote =>
  split at h
  · next hquote =>
    split at h
    · next n hn => cases h; exact .template hquote hn
    · next n hn => cases h; exact .opening hquote hn
    · cases h
  next hbackquote =>
  split at h
  · next hregex =>
    simp only [Bool.and_eq_true, decide_eq_true_eq] at hregex
    split at h
    · next n hn =>
      cases h
      exact .regex hregex.1 (hslash hregex.1).1 (hslash hregex.1).2 hregex.2 hn
    · cases h
  · next hregex =>
    cases h
    simp only [Bool.or_eq_true, decide_eq_true_eq, not_or] at hquote
    refine .mark hspace hword (Bool.eq_false_iff.2 hnumber) ⟨hquote.1, hquote.2, hbackquote⟩
      fun hc => ⟨(hslash hc).1, (hslash hc).2, ?_⟩
    simpa [hc] using hregex

theorem not_headIs_of_ne {x : CodePoint} (hc : c = '/' → Text.headIs s x = false) :
    ¬ (c = '/' && Text.headIs s x) = true := by
  simp only [Bool.and_eq_true, decide_eq_true_eq]
  rintro ⟨h, hx⟩
  rw [hc h] at hx
  cases hx

/-- The lexer finds what stands at the head: no earlier case of it applies. -/
theorem read_of_head (h : Head operand c s l n) : read operand c s = .ok (l, n) := by
  have hdivides : ∀ {x}, c ≠ '/' → ¬ (c = '/' && Text.headIs s x) = true :=
    fun hc => not_headIs_of_ne fun heq => absurd heq hc
  have notWord : startsWord c = false → ¬ (c.isIdentifierStart || c = '\\') = true :=
    fun h => Bool.eq_false_iff.1 h
  have notNumber : startsNumber c s = false →
      ¬ (c.isDigit || (c = '.' && s.head?.any (·.isDigit))) = true :=
    fun h => Bool.eq_false_iff.1 h
  cases h with
  | space h => rw [read, if_pos h]
  | line hc hs =>
    subst hc
    rw [read, if_neg (by decide), if_pos (by rw [hs]; rfl)]
  | block hc hs h =>
    subst hc
    obtain ⟨r, rfl⟩ := eq_cons_of_headIs hs
    rw [read, if_neg (by decide), if_neg (not_headIs_of_ne fun _ => rfl), if_pos (by rw [hs]; rfl), h]
  | word h =>
    have hc : c ∉ separators := fun hc => by
      rw [(not_starts_of_mem_separators hc s).1] at h
      cases h
    have hne : c ≠ '/' := fun heq => hc (heq ▸ by decide)
    rw [read, if_neg fun hs => hc (mem_separators_of_isSpace hs), if_neg (hdivides hne),
      if_neg (hdivides hne), if_pos (show (c.isIdentifierStart || c = '\\') = true from h)]
  | number hspace hword h =>
    have hne : c ≠ '/' := by
      rintro rfl
      rw [(not_starts_of_mem_separators (by decide) s).2] at h
      cases h
    rw [read, if_neg (Bool.eq_false_iff.1 hspace), if_neg (hdivides hne), if_neg (hdivides hne),
      if_neg (notWord hword), if_pos (show (c.isDigit || _) = true from h)]
    rfl
  | string hc h =>
    have hc' : c ∈ separators ∧ isSpace c = false ∧ c ≠ '/' := by
      rcases hc with rfl | rfl <;> decide
    obtain ⟨hword, hnumber⟩ := not_starts_of_mem_separators hc'.1 s
    rw [read, if_neg (Bool.eq_false_iff.1 hc'.2.1), if_neg (hdivides hc'.2.2),
      if_neg (hdivides hc'.2.2), if_neg (notWord hword),
      if_neg (notNumber hnumber), if_pos (by simpa using hc), h]
  | template hc h | opening hc h =>
    subst hc
    obtain ⟨hword, hnumber⟩ := not_starts_of_mem_separators (c := '`') (by decide) s
    rw [read, if_neg (by decide), if_neg (hdivides (by decide)), if_neg (hdivides (by decide)),
      if_neg (notWord hword), if_neg (notNumber hnumber), if_neg (by decide),
      if_pos rfl, h]
  | regex hc hline hblock ho h =>
    subst hc
    obtain ⟨hword, hnumber⟩ := not_starts_of_mem_separators (c := '/') (by decide) s
    rw [read, if_neg (by decide), if_neg (not_headIs_of_ne fun _ => hline),
      if_neg (not_headIs_of_ne fun _ => hblock), if_neg (notWord hword), if_neg (notNumber hnumber),
      if_neg (by decide), if_neg (by decide), if_pos (by simp [ho]), h]
  | mark hspace hword hnumber hquote hslash =>
    have hregex : ¬ (c = '/' && operand) = true := by
      simp only [Bool.and_eq_true, decide_eq_true_eq]
      intro h
      rw [(hslash h.1).2.2] at h
      cases h.2
    rw [read, if_neg (Bool.eq_false_iff.1 hspace), if_neg (not_headIs_of_ne fun hc => (hslash hc).1),
      if_neg (not_headIs_of_ne fun hc => (hslash hc).2.1), if_neg (notWord hword),
      if_neg (notNumber hnumber), if_neg (by simp [hquote.1, hquote.2.1]),
      if_neg hquote.2.2, if_neg hregex]

/-- What the lexer finds at the head of a source. -/
theorem read_eq_ok_iff : read operand c s = .ok (l, n) ↔ Head operand c s l n :=
  ⟨head_of_read, read_of_head⟩

end Read

/-! ### In front of other texts -/

section Head

variable {operand : Bool} {c d : CodePoint} {s u r : Text} {l : Lexeme} {n : Nat}

theorem headIs_append_cons (u r : Text) (d : CodePoint) (r' : Text) (x : CodePoint) :
    Text.headIs (u ++ d :: r') x = Text.headIs (u ++ d :: r) x := by
  cases u <;> rfl

/-- A lexeme in front of a separator stays the same when the source changes behind the separator. -/
theorem Head.append_cons (h : Head operand c (u ++ d :: r) l n) (hd : d ∈ separators)
    (hn : n ≤ u.length) (r' : Text) : Head operand c (u ++ d :: r') l n := by
  obtain ⟨hword, hpart, -, -⟩ := not_continues_of_mem_separators d hd
  have hhead := headIs_append_cons u r d r'
  have hnumber : startsNumber c (u ++ d :: r') = startsNumber c (u ++ d :: r) := by
    cases u <;> rfl
  -- What ends with a mark of its own is read without a look at what is behind it.
  have hclosed : ∀ (f : Text → Option Nat) {v : Text} {m : Nat},
      (∀ s m, f s = some m → ∀ r, f (s.take m ++ r) = some m) → m ≤ v.length →
      f (v ++ d :: r) = some m → f (v ++ d :: r') = some m := by
    intro f v m hf hm h
    have := hf _ _ h (v.drop m ++ d :: r')
    rwa [List.take_append_of_le_length hm, ← List.append_assoc, List.take_append_drop] at this
  have hchunk : ∀ {e m}, m ≤ u.length → chunkLength? (u ++ d :: r) = some (e, m) →
      chunkLength? (u ++ d :: r') = some (e, m) := by
    intro e m hm h
    have := chunkLength?_take h (u.drop m ++ d :: r')
    rwa [List.take_append_of_le_length hm, ← List.append_assoc, List.take_append_drop] at this
  -- What goes on as long as it can ends in front of the separator.
  have htakeWhile : ∀ {p : CodePoint → Bool} (v : Text), p d = false →
      (v ++ d :: r).takeWhile p = (v ++ d :: r').takeWhile p := fun v hp => by
    simp only [List.takeWhile_append, List.takeWhile_cons_of_neg (Bool.eq_false_iff.1 hp)]
  have hdrop : ∀ {m}, m ≤ u.length → ∀ r, (u ++ d :: r).drop m = u.drop m ++ d :: r := fun hm r =>
    List.drop_append_of_le_length hm
  generalize hs : u ++ d :: r = s at h
  cases h with
  | space h => exact .space h
  | line hc h =>
    subst hs
    obtain ⟨a, u, rfl⟩ := List.exists_cons_of_ne_nil (show u ≠ [] by rintro rfl; simp at hn)
    rw [show (a :: u ++ d :: r).tail = u ++ d :: r from rfl] at hn ⊢
    rw [← takeWhile_append_cons (by simp only [List.length_cons] at hn; omega) r']
    exact .line hc (hhead _ ▸ h)
  | block hc h hcomment =>
    subst hs
    obtain ⟨a, u, rfl⟩ := List.exists_cons_of_ne_nil (show u ≠ [] by rintro rfl; simp at hn)
    refine .block hc (hhead _ ▸ h) ?_
    exact hclosed _ (fun s m => commentLength?_take) (by simp only [List.length_cons] at hn; omega) hcomment
  | word h =>
    rw [← hs, htakeWhile u hword]
    exact .word h
  | number hspace hword h =>
    subst hs
    rw [numberLength_append_cons _ _ _ hd, ← numberLength_append_cons _ _ _ hd r', isHexadecimal,
      ← hhead, ← hhead]
    exact .number hspace hword (hnumber ▸ h)
  | string hc h =>
    exact .string hc (hclosed _ (fun s m => stringLength?_take) hn (hs ▸ h))
  | template hc h => exact .template hc (hchunk hn (hs ▸ h))
  | opening hc h => exact .opening hc (hchunk hn (hs ▸ h))
  | regex hc hline hblock ho h =>
    subst hs
    rename_i m
    have hm : m ≤ u.length := by omega
    rw [hdrop hm, htakeWhile _ hpart, ← hdrop hm]
    exact .regex hc (hhead _ ▸ hline) (hhead _ ▸ hblock) ho (hclosed _ (fun s m => patternLength?_take) hm h)
  | mark hspace hword' hnumber' hquote hslash =>
    rw [← hs, punctuator_append_cons c u hd, ← punctuator_append_cons c u hd r']
    subst hs
    refine .mark hspace hword' (hnumber ▸ hnumber') hquote ?_
    rwa [hhead, hhead]

/-- A lexeme at the end of the source stays the same in front of a line feed. -/
theorem Head.append_lineFeed (h : Head operand c s l n) (r : Text) :
    Head operand c (s ++ CodePoint.ofChar '\n' :: r) l n := by
  have hd : CodePoint.ofChar '\n' ∈ separators := by decide
  have hclosed : ∀ (f : Text → Option Nat) {v : Text} {m : Nat},
      (∀ s m, f s = some m → ∀ r, f (s.take m ++ r) = some m) → f v = some m →
      f (v ++ CodePoint.ofChar '\n' :: r) = some m := by
    intro f v m hf h
    have := hf _ _ h (v.drop m ++ CodePoint.ofChar '\n' :: r)
    rwa [← List.append_assoc, List.take_append_drop] at this
  have hchunk : ∀ {e m}, chunkLength? s = some (e, m) →
      chunkLength? (s ++ CodePoint.ofChar '\n' :: r) = some (e, m) := by
    intro e m h
    have := chunkLength?_take h (s.drop m ++ CodePoint.ofChar '\n' :: r)
    rwa [← List.append_assoc, List.take_append_drop] at this
  have htakeWhile : ∀ {p : CodePoint → Bool} (v : Text), p '\n' = false →
      (v ++ CodePoint.ofChar '\n' :: r).takeWhile p = v.takeWhile p := by
    intro p v hp
    rw [List.takeWhile_append, List.takeWhile_cons_of_neg (Bool.eq_false_iff.1 hp), List.append_nil]
    split
    · next heq => exact ((List.takeWhile_sublist p).eq_of_length heq).symm
    · rfl
  have hhead : ∀ x : CodePoint, x ≠ '\n' →
      Text.headIs (s ++ CodePoint.ofChar '\n' :: r) x = Text.headIs s x := by
    intro x hx
    cases s with
    | nil => simp [Text.headIs, Ne.symm hx]
    | cons a s => rfl
  have hnumber : startsNumber c (s ++ CodePoint.ofChar '\n' :: r) = startsNumber c s := by
    cases s with
    | nil => simp [startsNumber, show (CodePoint.ofChar '\n').isDigit = false by decide]
    | cons a s => rfl
  cases h with
  | space h => exact .space h
  | line hc h =>
    obtain ⟨s, rfl⟩ := eq_cons_of_headIs h
    rw [List.tail_cons, ← htakeWhile s (by decide)]
    exact .line hc rfl
  | block hc h hcomment =>
    obtain ⟨s, rfl⟩ := eq_cons_of_headIs h
    exact .block hc rfl (hclosed _ (fun s m => commentLength?_take) hcomment)
  | word h =>
    rw [← htakeWhile s (by decide)]
    exact .word h
  | number hspace hword h =>
    rw [← numberLength_append_cons _ _ _ hd r, isHexadecimal, ← hhead _ (by decide),
      ← hhead _ (by decide)]
    exact .number hspace hword (hnumber ▸ h)
  | string hc h => exact .string hc (hclosed _ (fun s m => stringLength?_take) h)
  | template hc h => exact .template hc (hchunk h)
  | opening hc h => exact .opening hc (hchunk h)
  | @regex m hc hline hblock ho h =>
    rw [← htakeWhile (s.drop m) (by decide), ← List.drop_append_of_le_length (patternLength?_le h)]
    exact .regex hc ((hhead '/' (by decide)).trans hline) ((hhead '*' (by decide)).trans hblock) ho
      (hclosed _ (fun s m => patternLength?_take) h)
  | mark hspace hword hnumber' hquote hslash =>
    rw [← punctuator_append_cons c s hd r]
    refine .mark hspace hword (hnumber ▸ hnumber') hquote ?_
    rwa [hhead _ (by decide), hhead _ (by decide)]

/-- What stands in front of `a` is read in the same way in front of `a'`. -/
def Stable (a a' : Text) : Prop :=
  ∀ {operand : Bool} {c : CodePoint} {u : Text} {l : Lexeme} {n : Nat},
    Head operand c (u ++ a) l n → n ≤ u.length → Head operand c (u ++ a') l n

theorem Alike.stable {a a' : Text} (ha : Alike a a') : Stable a a' := by
  intro operand c u l n h hn
  rcases ha with rfl | ⟨v, d, r, r', hd, rfl, rfl⟩
  · exact h
  · rw [← List.append_assoc] at h ⊢
    refine h.append_cons hd ?_ r'
    rw [List.length_append]
    omega

theorem Stable.append {a a' : Text} (h : Stable a a') (w : Text) : Stable (w ++ a) (w ++ a') := by
  intro operand c u l n hhead hn
  rw [← List.append_assoc] at hhead ⊢
  exact h hhead (Nat.le_trans hn (by rw [List.length_append]; exact Nat.le_add_right _ _))

/-- The end of a source is as good as a line feed. -/
theorem stable_nil (r : Text) : Stable [] (CodePoint.ofChar '\n' :: r) := by
  intro operand c u l n h _
  rw [List.append_nil] at h
  exact h.append_lineFeed r

/-- What may follow matters only to a slash. -/
theorem Head.of_operand (h : Head operand c s l n) (hc : c = '/' → l = gap) (operand' : Bool) :
    Head operand' c s l n := by
  cases h with
  | space h => exact .space h
  | line hs h => exact .line hs h
  | block hs h hn => exact .block hs h hn
  | word h => exact .word h
  | number hspace hword h => exact .number hspace hword h
  | string hq h => exact .string hq h
  | template hq h => exact .template hq h
  | opening hq h => exact .opening hq h
  | regex hs => cases hc hs
  | mark hspace hword hnumber hquote _ =>
    exact .mark hspace hword hnumber hquote fun hs => by cases hc hs

/-- A lexeme ends inside the source. -/
theorem Head.length_le (h : Head operand c s l n) : n ≤ s.length := by
  cases h with
  | space => exact Nat.zero_le _
  | line _ h =>
    obtain ⟨s, rfl⟩ := eq_cons_of_headIs h
    have := (List.takeWhile_sublist inLineComment (l := s)).length_le
    simp only [List.tail_cons, List.length_cons]
    omega
  | block _ h hn =>
    obtain ⟨s, rfl⟩ := eq_cons_of_headIs h
    have := commentLength?_le hn
    simp only [List.tail_cons, List.length_cons] at this ⊢
    omega
  | word => exact (List.takeWhile_sublist _).length_le
  | number => exact numberLength_le _ _ s
  | string _ h => exact stringLength?_le h
  | template _ h | opening _ h => exact chunkLength?_le h
  | @regex m _ _ _ _ h =>
    have := (List.takeWhile_sublist (·.isIdentifierPart) (l := s.drop m)).length_le
    have := patternLength?_le h
    simp only [List.length_drop] at *
    omega
  | mark => exact punctuator_le c s

/-- A gap that something follows on its line is white space or a block comment. -/
theorem Head.gap_cases (h : Head operand c s gap n) (hs : (s.drop n).head?.any inLineComment) :
    (isSpace c ∧ n = 0) ∨
      ∃ (r : Text) (m : Nat), c = '/' ∧ s = CodePoint.ofChar '*' :: r ∧ commentLength? r = some m ∧
        n = m + 1 := by
  cases h with
  | space h => exact .inl ⟨h, rfl⟩
  | line hc h =>
    obtain ⟨s, rfl⟩ := eq_cons_of_headIs h
    have hrest : s.drop (s.takeWhile inLineComment).length = s.dropWhile inLineComment := by
      have := congrArg (List.drop (s.takeWhile inLineComment).length)
        (s.takeWhile_append_dropWhile (p := inLineComment))
      rwa [List.drop_left, eq_comm] at this
    have hnot := List.head?_dropWhile_not inLineComment s
    rw [Nat.add_comm, List.tail_cons, List.drop_succ_cons, hrest] at hs
    cases hd : (s.dropWhile inLineComment).head? with
    | none => simp [hd] at hs
    | some x => simp_all
  | @block m hc h hn =>
    obtain ⟨r, rfl⟩ := eq_cons_of_headIs h
    exact .inr ⟨r, m, hc, rfl, hn, Nat.add_comm 1 m⟩

/-- Such a gap is one in front of any text. -/
theorem Head.closed (h : Head operand c s gap n) (hs : (s.drop n).head?.any inLineComment)
    (operand' : Bool) (r : Text) : Head operand' c (s.take n ++ r) gap n := by
  rcases h.gap_cases hs with ⟨hspace, rfl⟩ | ⟨s, m, hc, rfl, hm, rfl⟩
  · exact .space hspace
  · rw [Nat.add_comm]
    refine .block hc (by rw [Nat.add_comm]; rfl) ?_
    rw [Nat.add_comm]
    exact commentLength?_take hm r

/-- A comment ends in a slash. -/
theorem getLast?_take_of_commentLength? (h : commentLength? s = some n) :
    (s.take n).getLast? = some (CodePoint.ofChar '/') := by
  fun_induction commentLength? s generalizing n with
  | case1 => cases h
  | case2 c s hc =>
    cases h
    simp only [Bool.and_eq_true] at hc
    obtain ⟨s, rfl⟩ := eq_cons_of_headIs hc.2
    rfl
  | case3 c s hc ih =>
    obtain ⟨m, hm, rfl⟩ := Option.map_eq_some_iff.1 h
    rw [List.take_succ_cons, List.getLast?_cons, ih hm]
    rfl

/-- Such a gap ends in a separator. -/
theorem Head.getLast?_gap (h : Head operand c s gap n) (hs : (s.drop n).head?.any inLineComment) :
    ∃ d ∈ separators, (c :: s.take n).getLast? = some d := by
  rcases h.gap_cases hs with ⟨hspace, rfl⟩ | ⟨s, m, hc, rfl, hm, rfl⟩
  · exact ⟨c, mem_separators_of_isSpace hspace, rfl⟩
  · refine ⟨'/', by decide, ?_⟩
    rw [List.take_succ_cons, List.getLast?_cons, List.getLast?_cons,
      getLast?_take_of_commentLength? hm]
    rfl

end Head

end Lexeme

/-- The kinds of the punctuators that start no operator: nothing behind them can lengthen them. -/
def TokenKind.isSealed : TokenKind → Bool
  | .leftBrace | .rightBrace | .leftParen | .rightParen | .leftBracket | .rightBracket | .comma
  | .semicolon | .colon => true
  | _ => false

/-- The kinds of words. -/
def TokenKind.isWordKind : TokenKind → Bool
  | .identifier | .importWord | .exportWord => true
  | _ => false

namespace Lexeme

/-- The punctuators that are sealed. -/
def sealedMarks : List CodePoint := [';', ',', ':', '(', ')', '{', '}', '[', ']']

theorem mem_sealedMarks_of_isSealed {c : CodePoint} (h : (punctuatorKind c).isSealed) :
    c ∈ sealedMarks := by
  by_contra hc
  simp only [sealedMarks, List.mem_cons, List.not_mem_nil, or_false, not_or] at hc
  obtain ⟨h₁, h₂, h₃, h₄, h₅, h₆, h₇, h₈, h₉⟩ := hc
  rw [punctuatorKind, if_neg h₆, if_neg h₇, if_neg h₄, if_neg h₅, if_neg h₈, if_neg h₉, if_neg h₂,
    if_neg h₁] at h
  repeat' split at h
  all_goals cases h

/-- A punctuator is by itself in front of a text that continues no operator which it starts. -/
theorem punctuator_of_forall {c : CodePoint} {s : Text}
    (h : ∀ op ∈ operators, op.head? = some c → ∃ d ∈ op.tail.head?, s.head? ≠ some d) :
    punctuator c s = (punctuatorKind c, 0) := by
  have hne : ∀ op ∈ operators, op ≠ [] := by decide
  have hfind : operators.find? (·.isPrefixOf (c :: s)) = none := by
    refine List.find?_eq_none.2 fun op hop hprefix => ?_
    obtain ⟨b, v, rfl⟩ := List.exists_cons_of_ne_nil (hne op hop)
    obtain ⟨behind, hbehind⟩ := List.isPrefixOf_iff_prefix.1 hprefix
    rw [List.cons_append] at hbehind
    obtain ⟨rfl, hs⟩ := List.cons.inj hbehind
    obtain ⟨d, hd, hne⟩ := h _ hop rfl
    refine hne ?_
    rw [← hs, List.head?_append, show v.head? = some d from hd]
    rfl
  rw [punctuator, hfind]

/-- No operator starts with a sealed punctuator. -/
theorem punctuator_of_mem_sealedMarks {c : CodePoint} (h : c ∈ sealedMarks) (s : Text) :
    punctuator c s = (punctuatorKind c, 0) := by
  have hhead : ∀ op ∈ operators, ∀ d ∈ sealedMarks, op.head? ≠ some d := by decide
  exact punctuator_of_forall fun op hop hc => absurd hc (hhead op hop c h)

/-- A sealed token is one code point. -/
theorem Head.of_isSealed {operand : Bool} {c : CodePoint} {s : Text} {k : TokenKind} {n : Nat}
    (h : Head operand c s (token k) n) (hk : k.isSealed) :
    c ∈ sealedMarks ∧ k = punctuatorKind c ∧ n = 0 := by
  generalize hl : token k = l at h
  cases h with
  | space | line | block | opening => cases hl
  | word =>
    cases hl
    unfold wordKind at hk
    repeat' split at hk
    all_goals cases hk
  | number | regex | string | template =>
    cases hl
    cases hk
  | mark =>
    have hc : c ∈ sealedMarks := by
      cases hl
      unfold punctuator at hk
      split at hk
      · cases hk
      · exact mem_sealedMarks_of_isSealed hk
    rw [punctuator_of_mem_sealedMarks hc s] at hl ⊢
    cases hl
    exact ⟨hc, rfl, rfl⟩

theorem isWordKind_wordKind (w : Text) : (wordKind w).isWordKind := by
  unfold wordKind
  repeat' split
  all_goals rfl

theorem isWordKind_ite {p : Prop} [Decidable p] {k k' : TokenKind} (hk : k.isWordKind = false)
    (hk' : k'.isWordKind = false) : (if p then k else k').isWordKind = false := by
  split <;> assumption

theorem isWordKind_punctuatorKind (c : CodePoint) : (punctuatorKind c).isWordKind = false := by
  unfold punctuatorKind
  repeat refine isWordKind_ite rfl ?_
  rfl

/-- A word starts as one and goes on as far as it can. -/
theorem Head.of_isWordKind {operand : Bool} {c : CodePoint} {s : Text} {k : TokenKind} {n : Nat}
    (h : Head operand c s (token k) n) (hk : k.isWordKind) :
    startsWord c ∧ k = wordKind (c :: s.takeWhile inWord) ∧ n = (s.takeWhile inWord).length := by
  generalize hl : token k = l at h
  cases h with
  | space | line | block | opening => cases hl
  | word h =>
    cases hl
    exact ⟨h, rfl, rfl⟩
  | number | regex | string | template =>
    cases hl
    cases hk
  | mark =>
    cases hl
    unfold punctuator at hk
    split at hk
    · cases hk
    · rw [isWordKind_punctuatorKind] at hk
      cases hk

/-- What starts as a word is a word. -/
theorem Head.of_startsWord {operand : Bool} {c : CodePoint} {s : Text} {l : Lexeme} {n : Nat}
    (h : Head operand c s l n) (hc : startsWord c) : l = token (wordKind (c :: s.takeWhile inWord)) := by
  have hword : Head operand c s _ _ := .word hc
  have heq := (read_eq_ok_iff.2 h).symm.trans (read_eq_ok_iff.2 hword)
  exact (Prod.mk.inj (Except.ok.inj heq)).1

/-- Punctuators that only operators start with. -/
def operatorMarks : List CodePoint := ['?', '<', '>']

/-- What starts with such a punctuator is an operator. -/
theorem Head.of_operatorMark {operand : Bool} {c : CodePoint} {s : Text} {k : TokenKind} {n : Nat}
    (h : Head operand c s (token k) n) (hc : c ∈ operatorMarks) : k = .operator := by
  have hall : ∀ d ∈ operatorMarks, startsWord d = false ∧ d.isDigit = false ∧ d ≠ '.' ∧
      (d ≠ '\'' ∧ d ≠ '"' ∧ d ≠ '`') ∧ d ≠ '/' ∧ punctuatorKind d = .operator := by
    decide
  obtain ⟨hword, hdigit, hdot, ⟨hsingle, hdouble, hback⟩, hslash, hkind⟩ := hall c hc
  generalize hl : token k = l at h
  cases h with
  | space | line | block | opening => cases hl
  | word h =>
    rw [hword] at h
    cases h
  | number _ _ h => simp [startsNumber, hdigit, hdot] at h
  | string h => exact absurd h (by simp [hsingle, hdouble])
  | template h => exact absurd h hback
  | regex h => exact absurd h hslash
  | mark =>
    cases hl
    unfold punctuator
    split
    · rfl
    · exact hkind

theorem mem_separators_of_mem_sealedMarks : ∀ c ∈ sealedMarks, c ∈ separators := by decide

/-- A sealed punctuator stands in front of any text. -/
theorem head_of_mem_sealedMarks {c : CodePoint} (h : c ∈ sealedMarks) (operand : Bool) (s : Text) :
    Head operand c s (token (punctuatorKind c)) 0 := by
  have hall : ∀ d ∈ sealedMarks, isSpace d = false ∧ (d ≠ '\'' ∧ d ≠ '"' ∧ d ≠ '`') ∧ d ≠ '/' := by
    decide
  obtain ⟨hspace, hquote, hslash⟩ := hall c h
  obtain ⟨hword, hnumber⟩ := not_starts_of_mem_separators (mem_separators_of_mem_sealedMarks c h) s
  have : Head operand c s _ _ := .mark hspace hword hnumber hquote fun hs => absurd hs hslash
  rwa [punctuator_of_mem_sealedMarks h s] at this

end Lexeme

end ScriptBundle
