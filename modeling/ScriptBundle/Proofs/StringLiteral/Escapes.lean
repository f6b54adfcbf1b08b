import ScriptBundle.Proofs.StringLiteral.Values

/-!
# The escapes of a string literal

What the language says about the text between the quotes of a literal, in strict code: the text is a
sequence of characters that are no backslash and of escapes, each of which stands for a code point or,
over a line break, for nothing; its value has the UTF-16 units of these code points, one behind the
other. Decoding gives this value, with one exception. It takes digits of all scripts for digits, where
the language means the ten of ASCII, and so it refuses some escapes that the language has.

* `IsEscape`, `IsBody`, `HasValue`: the grammar of the language, and the value of a text;
* `MeetsWideDigit`: an escape of the text is misread because of a digit;
* `isBody_of_unescape`, `unescape_of_isBody`: reading follows the grammar;
* `decodeBody_eq_ok_iff`: what decoding gives.
-/

namespace ScriptBundle

namespace StringLiteral

/-! ### The grammar -/

/-- The letters that stand for control characters. -/
def controlLetters : List (CodePoint × CodePoint) :=
  [('b', '\x08'), ('f', '\x0c'), ('n', '\n'), ('r', '\r'), ('t', '\t'), ('v', '\x0b')]

/-- The characters that end a line. -/
def lineTerminators : Text := ['\n', '\r', '\u2028', '\u2029']

/-- The text `e` is an escape, read behind a backslash and in front of `rest`, and stands for the given
code point, or for nothing. -/
inductive IsEscape : Text → Text → Option CodePoint → Prop
  /-- A letter that stands for a control character. -/
  | control {d c : CodePoint} {rest : Text} (h : (d, c) ∈ controlLetters) :
      IsEscape [d] rest (some c)
  /-- A zero that no other digit follows. -/
  | zero {rest : Text} (h : ∀ d ∈ rest.head?, d.isAsciiDigit = false) :
      IsEscape ['0'] rest (some '\x00')
  /-- `\xHH`. -/
  | byte {digits rest : Text} {n : Nat} (hlength : digits.length = 2)
      (hvalue : Text.hexValue? digits = some n) :
      IsEscape (CodePoint.ofChar 'x' :: digits) rest (some (.ofNat n))
  /-- `\uHHHH`. -/
  | unit {digits rest : Text} {n : Nat} (hlength : digits.length = 4)
      (hvalue : Text.hexValue? digits = some n) :
      IsEscape (CodePoint.ofChar 'u' :: digits) rest (some (.ofNat n))
  /-- `\u` and the number of a code point in braces. -/
  | codePoint {digits rest : Text} {n : Nat} (hdigits : digits ≠ [])
      (hvalue : Text.hexValue? digits = some n) (hn : n ≤ 0x10FFFF) :
      IsEscape
        (CodePoint.ofChar 'u' :: CodePoint.ofChar '\x7b' :: (digits ++ [CodePoint.ofChar '\x7d'])) rest
        (some (.ofNat n))
  /-- A line break of two characters. -/
  | lineBreak {rest : Text} : IsEscape ['\r', '\n'] rest none
  /-- A line break of one character. -/
  | lineTerminator {d : CodePoint} {rest : Text} (h : d ∈ lineTerminators)
      (hpair : ¬ (d = '\r' ∧ Text.headIs rest '\n')) : IsEscape [d] rest none
  /-- Any other character. -/
  | itself {c : CodePoint} {rest : Text} (hcontrol : ∀ v, (c, v) ∉ controlLetters)
      (hline : c ∉ lineTerminators) (hx : c ≠ 'x') (hu : c ≠ 'u') (hdigit : c.isAsciiDigit = false) :
      IsEscape [c] rest (some c)

/-- The text is a sequence of characters and escapes, and these are the code points that they stand
for. -/
inductive IsBody : Text → Text → Prop
  | nil : IsBody [] []
  | character {c : CodePoint} {s w : Text} (hc : c ≠ '\\') (h : IsBody s w) :
      IsBody (c :: s) (c :: w)
  | escape {e s w : Text} {v : Option CodePoint} (he : IsEscape e s v) (h : IsBody s w) :
      IsBody (CodePoint.ofChar '\\' :: (e ++ s)) (v.toList ++ w)

/-- The value of a text between quotes: its UTF-16 units are those of the code points that the text
stands for, and no two halves of a surrogate pair are left apart in it. -/
def HasValue (s v : Text) : Prop :=
  ∃ w, IsBody s w ∧ v.flatMap units = w.flatMap units ∧ Paired v

/-- A digit in the wider sense that is none of the ten of ASCII. -/
def isWideDigit (c : CodePoint) : Bool := c.isDigit && !c.isAsciiDigit

/-- Reading the text from the left meets an escape that is such a digit, or a zero in front of one. -/
inductive MeetsWideDigit : Text → Prop
  | behindBackslash {d : CodePoint} {s : Text} (h : isWideDigit d) :
      MeetsWideDigit (CodePoint.ofChar '\\' :: d :: s)
  | behindZero {d : CodePoint} {s : Text} (h : isWideDigit d) :
      MeetsWideDigit (CodePoint.ofChar '\\' :: CodePoint.ofChar '0' :: d :: s)
  | character {c : CodePoint} {s : Text} (hc : c ≠ '\\') (h : MeetsWideDigit s) :
      MeetsWideDigit (c :: s)
  | escape {e s : Text} {v : Option CodePoint} (he : IsEscape e s v) (h : MeetsWideDigit s) :
      MeetsWideDigit (CodePoint.ofChar '\\' :: (e ++ s))

/-! ### One escape -/

variable {c d : CodePoint} {e s v w : Text} {u : Option CodePoint} {n width : Nat}

theorem controlEscape?_eq_some_iff : controlEscape? d = some c ↔ (d, c) ∈ controlLetters := by
  constructor
  · intro h
    unfold controlEscape? at h
    repeat' split at h
    all_goals cases h
    all_goals subst_vars
    all_goals decide
  · have hall : ∀ x ∈ controlLetters, controlEscape? x.1 = some x.2 := by decide
    exact hall (d, c)

theorem controlEscape?_eq_none_iff : controlEscape? d = none ↔ ∀ v, (d, v) ∉ controlLetters := by
  rw [Option.eq_none_iff_forall_ne_some]
  exact forall_congr' fun v => not_congr controlEscape?_eq_some_iff

/-- What is no digit in the wider sense is none of the ten. -/
theorem isAsciiDigit_of_not_isDigit (h : c.isDigit = false) : c.isAsciiDigit = false := by
  by_contra hdigit
  rw [(Lexer.digit_continues (by simpa using hdigit)).2.2.1] at h
  cases h

theorem isLineTerminator_iff : isLineTerminator d ↔ d ∈ lineTerminators := by
  simp [isLineTerminator, lineTerminators, or_assoc]

theorem fixedHex?_eq_some_iff :
    fixedHex? width s = some c ↔
      ∃ digits rest n, s = digits ++ rest ∧ digits.length = width ∧
        Text.hexValue? digits = some n ∧ c = .ofNat n := by
  unfold fixedHex?
  constructor
  · intro h
    split at h
    · cases h
    · next hlength =>
      obtain ⟨n, hn, rfl⟩ := Option.map_eq_some_iff.1 h
      exact ⟨s.take width, s.drop width, n, (List.take_append_drop width s).symm,
        List.length_take_of_le (by omega), hn, rfl⟩
  · rintro ⟨digits, rest, n, rfl, rfl, hn, rfl⟩
    rw [if_neg (by simp), List.take_left, hn]
    rfl

theorem exists_hexValue?_of_mem {digits : Text} (h : Text.hexValue? digits = some n)
    (hc : c ∈ digits) : ∃ m, c.hexValue? = some m := by
  unfold Text.hexValue? at h
  generalize 0 = k at h
  induction digits generalizing k with
  | nil => cases hc
  | cons d digits ih =>
    rw [List.foldlM_cons] at h
    obtain ⟨k', hk', h⟩ := Option.bind_eq_some_iff.1 h
    obtain ⟨m, hm, -⟩ := Option.map_eq_some_iff.1 hk'
    rcases List.mem_cons.1 hc with rfl | hc
    · exact ⟨m, hm⟩
    · exact ih hc k' h

/-- What stands in front of the first closing brace. -/
theorem eq_append_brace {digits : Text}
    (h : s.takeWhile (fun e => decide (e ≠ CodePoint.ofChar '\x7d')) = digits)
    (hlength : digits.length ≠ s.length) : ∃ rest, s = digits ++ CodePoint.ofChar '\x7d' :: rest := by
  have hsplit := List.takeWhile_append_dropWhile
    (p := fun e => decide (e ≠ CodePoint.ofChar '\x7d')) (l := s)
  have hhead := List.head?_dropWhile_not (fun e => decide (e ≠ CodePoint.ofChar '\x7d')) s
  rw [h] at hsplit
  cases hdrop : s.dropWhile fun e => decide (e ≠ CodePoint.ofChar '\x7d') with
  | nil =>
    rw [hdrop, List.append_nil] at hsplit
    exact absurd (congrArg List.length hsplit) hlength
  | cons e rest =>
    rw [hdrop] at hhead hsplit
    obtain rfl : e = '\x7d' := by simpa using hhead
    exact ⟨rest, hsplit.symm⟩

theorem bracedHex_eq_ok_iff :
    bracedHex s = .ok (c, width) ↔
      ∃ digits rest n, s = digits ++ CodePoint.ofChar '\x7d' :: rest ∧ digits ≠ [] ∧
        Text.hexValue? digits = some n ∧ n ≤ 0x10FFFF ∧ c = .ofNat n ∧ width = digits.length := by
  unfold bracedHex
  constructor
  · intro h
    simp only at h
    generalize hdigits : s.takeWhile (fun e => decide (e ≠ CodePoint.ofChar '\x7d')) = digits at h
    split at h
    · cases h
    · next hsome =>
      obtain ⟨hne, hlength⟩ : digits ≠ [] ∧ digits.length ≠ s.length := by simpa using hsome
      split at h
      · cases h
      · next n hn =>
        split at h
        · next hlt =>
          cases h
          obtain ⟨rest, hs⟩ := eq_append_brace hdigits hlength
          exact ⟨digits, rest, n, hs, hne, hn, by omega, (dif_pos hlt).symm, rfl⟩
        · cases h
  · rintro ⟨digits, rest, n, rfl, hne, hn, hle, rfl, rfl⟩
    have htake : (digits ++ CodePoint.ofChar '\x7d' :: rest).takeWhile
        (fun c => c ≠ CodePoint.ofChar '}') = digits := by
      rw [List.takeWhile_append_of_pos]
      · simp
      · intro c hc
        obtain ⟨m, hm⟩ := exists_hexValue?_of_mem hn hc
        rw [decide_eq_true_eq]
        rintro rfl
        cases hm
    simp only [htake]
    have hlt : n < 0x110000 := by omega
    simp [hne, hn, hlt, CodePoint.ofNat]

/-- A line break behind a backslash, read as a whole. -/
theorem isEscape_of_isLineTerminator (h : isLineTerminator d) :
    IsEscape (d :: s.take (if d = '\r' && Text.headIs s '\n' then 1 else 0))
      (s.drop (if d = '\r' && Text.headIs s '\n' then 1 else 0)) none := by
  split
  · next hpair =>
    obtain ⟨hreturn, hfeed⟩ := Bool.and_eq_true_iff.1 hpair
    obtain rfl := of_decide_eq_true hreturn
    obtain ⟨rest, rfl⟩ := Lexeme.eq_cons_of_headIs hfeed
    exact .lineBreak
  · next hpair =>
    exact .lineTerminator (isLineTerminator_iff.1 h) fun h => hpair (by simpa using h)

theorem isEscape_zero (h : s.head?.any (·.isDigit) = false) :
    IsEscape ['0'] s (some '\x00') := by
  refine .zero fun e he => isAsciiDigit_of_not_isDigit ?_
  rwa [Option.mem_def.1 he, Option.any_some] at h

theorem isEscape_byte (h : fixedHex? 2 s = some c) :
    IsEscape (CodePoint.ofChar 'x' :: s.take 2) (s.drop 2) (some c) := by
  obtain ⟨digits, rest, m, rfl, hlength, hm, rfl⟩ := fixedHex?_eq_some_iff.1 h
  rw [List.take_left' hlength, List.drop_left' hlength]
  exact .byte hlength hm

theorem isEscape_unit (h : fixedHex? 4 s = some c) :
    IsEscape (CodePoint.ofChar 'u' :: s.take 4) (s.drop 4) (some c) := by
  obtain ⟨digits, rest, m, rfl, hlength, hm, rfl⟩ := fixedHex?_eq_some_iff.1 h
  rw [List.take_left' hlength, List.drop_left' hlength]
  exact .unit hlength hm

theorem isEscape_braced (h : bracedHex s = .ok (c, n)) :
    IsEscape (CodePoint.ofChar 'u' :: CodePoint.ofChar '\x7b' :: s.take (n + 1)) (s.drop (n + 1))
      (some c) := by
  obtain ⟨digits, rest, m, rfl, hne, hm, hle, rfl, rfl⟩ := bracedHex_eq_ok_iff.1 h
  rw [List.take_length_add_append, List.drop_length_add_append]
  exact .codePoint hne hm hle

/-- An escape that is read is one of the grammar. -/
theorem isEscape_of_escape (h : escape d s = .ok (u, n)) :
    IsEscape (d :: s.take n) (s.drop n) u := by
  unfold escape at h
  split at h
  · next c hc =>
    cases h
    exact .control (controlEscape?_eq_some_iff.1 hc)
  · next hcontrol =>
    have hcontrol := controlEscape?_eq_none_iff.1 (Option.eq_none_iff_forall_ne_some.2 hcontrol)
    split at h
    · next hline =>
      cases h
      exact isEscape_of_isLineTerminator hline
    · next hline =>
      have hline : d ∉ lineTerminators := fun hd => hline (isLineTerminator_iff.2 hd)
      split at h
      · next hzero =>
        cases h
        obtain ⟨hd, hs⟩ := Bool.and_eq_true_iff.1 hzero
        obtain rfl := of_decide_eq_true hd
        exact isEscape_zero (by simpa using hs)
      · split at h
        · next hx =>
          subst hx
          split at h
          · next v hv =>
            cases h
            exact isEscape_byte hv
          · cases h
        · split at h
          · next hu =>
            subst hu
            split at h
            · next hbrace =>
              obtain ⟨rest, rfl⟩ := Lexeme.eq_cons_of_headIs hbrace
              obtain ⟨⟨v, k⟩, hk, h⟩ := Except.map_eq_ok_iff.1 h
              cases h
              exact isEscape_braced hk
            · split at h
              · next v hv =>
                cases h
                exact isEscape_unit hv
              · cases h
          · split at h
            · cases h
            · next hx hu hdigit =>
              cases h
              exact .itself hcontrol hline hx hu
                (isAsciiDigit_of_not_isDigit (Bool.eq_false_iff.2 hdigit))

/-- A character behind a backslash that starts none of the other escapes stands for itself, and a digit
is refused. -/
theorem escape_other (hcontrol : controlEscape? d = none) (hline : isLineTerminator d = false)
    (hzero : d ≠ '0') (hx : d ≠ 'x') (hu : d ≠ 'u') (s : Text) :
    escape d s = if d.isDigit then .error (.octal d) else .ok (some d, 0) := by
  simp only [escape, hcontrol, hline, hzero, hx, hu, decide_false, Bool.false_and, Bool.false_eq_true,
    if_false]

theorem escape_lineTerminator (hcontrol : controlEscape? d = none) (hline : isLineTerminator d)
    (s : Text) :
    escape d s = .ok (none, if d = '\r' && Text.headIs s '\n' then 1 else 0) := by
  simp only [escape, hcontrol, hline, if_true]

theorem escape_zero (s : Text) : escape '0' s =
    if s.head?.any (·.isDigit) then .error (.octal '0') else .ok (some '\x00', 0) := by
  have hcontrol : controlEscape? '0' = none := by decide
  have hline : isLineTerminator '0' = false := by decide
  have hx : CodePoint.ofChar '0' ≠ 'x' := by decide
  have hu : CodePoint.ofChar '0' ≠ 'u' := by decide
  have hdigit : (CodePoint.ofChar '0').isDigit := by decide
  simp only [escape, hcontrol, hline, hx, hu, hdigit, decide_true, Bool.true_and, Bool.false_eq_true,
    if_false, if_true]
  cases s.head?.any (·.isDigit) <;> rfl

theorem escape_byte (h : fixedHex? 2 s = some c) : escape 'x' s = .ok (some c, 2) := by
  have hcontrol : controlEscape? 'x' = none := by decide
  have hline : isLineTerminator 'x' = false := by decide
  have hzero : CodePoint.ofChar 'x' ≠ '0' := by decide
  simp only [escape, hcontrol, hline, hzero, h, decide_false, Bool.false_and, Bool.false_eq_true,
    if_false, if_true]

theorem escape_unit (hbrace : Text.headIs s '\x7b' = false) (h : fixedHex? 4 s = some c) :
    escape 'u' s = .ok (some c, 4) := by
  have hcontrol : controlEscape? 'u' = none := by decide
  have hline : isLineTerminator 'u' = false := by decide
  have hzero : CodePoint.ofChar 'u' ≠ '0' := by decide
  have hx : CodePoint.ofChar 'u' ≠ 'x' := by decide
  simp only [escape, hcontrol, hline, hzero, hx, hbrace, h, decide_false, Bool.false_and,
    Bool.false_eq_true, if_false, if_true]

theorem escape_braced (h : bracedHex s = .ok (c, n)) :
    escape 'u' (CodePoint.ofChar '\x7b' :: s) = .ok (some c, n + 2) := by
  have hcontrol : controlEscape? 'u' = none := by decide
  have hline : isLineTerminator 'u' = false := by decide
  have hzero : CodePoint.ofChar 'u' ≠ '0' := by decide
  have hx : CodePoint.ofChar 'u' ≠ 'x' := by decide
  simp only [escape, hcontrol, hline, hzero, hx, Text.headIs, List.head?_cons, List.tail_cons, h,
    decide_false, decide_true, Bool.false_and, Bool.false_eq_true, if_false, if_true, Except.map_ok]

/-- A digit in the wider sense is refused. -/
theorem escape_of_isWideDigit (h : isWideDigit d) (s : Text) : escape d s = .error (.octal d) := by
  have hletters : ∀ x ∈ controlLetters, isWideDigit x.1 = false := by decide
  have hlines : ∀ c ∈ lineTerminators, isWideDigit c = false := by decide +kernel
  have hcontrol : controlEscape? d = none :=
    controlEscape?_eq_none_iff.2 fun v hv => by simp [hletters _ hv] at h
  have hline : isLineTerminator d = false :=
    Bool.eq_false_iff.2 fun hd => by simp [hlines d (isLineTerminator_iff.1 hd)] at h
  rw [escape_other hcontrol hline, if_pos (Bool.and_eq_true_iff.1 h).1]
  all_goals
    rintro rfl
    exact absurd h (by decide)

/-- An escape of the grammar is read, unless a digit in the wider sense misleads. -/
theorem escape_of_isEscape (h : IsEscape e s u) :
    ∃ d t, e = d :: t ∧ (escape d (t ++ s) = .ok (u, t.length) ∨
      escape d (t ++ s) = .error (.octal d) ∧
        (isWideDigit d ∨ d = '0' ∧ t = [] ∧ ∃ c ∈ s.head?, isWideDigit c)) := by
  cases h with
  | control h =>
    refine ⟨_, [], rfl, .inl ?_⟩
    rw [escape, controlEscape?_eq_some_iff.2 h]
    rfl
  | zero h =>
    refine ⟨_, [], rfl, ?_⟩
    rw [List.nil_append, escape_zero]
    split
    · next hdigit =>
      obtain ⟨c, hc, hdigit⟩ := (Option.any_eq_true _ _).1 hdigit
      refine .inr ⟨rfl, .inr ⟨rfl, rfl, c, hc, ?_⟩⟩
      simp [isWideDigit, hdigit, h c hc]
    · exact .inl rfl
  | @byte digits _ n hlength hvalue =>
    refine ⟨_, digits, rfl, .inl ?_⟩
    rw [escape_byte (fixedHex?_eq_some_iff.2 ⟨digits, s, n, rfl, hlength, hvalue, rfl⟩), hlength]
  | @unit digits _ n hlength hvalue =>
    refine ⟨_, digits, rfl, .inl ?_⟩
    have hbrace : Text.headIs (digits ++ s) '\x7b' = false := by
      obtain ⟨d, digits, rfl⟩ := List.exists_cons_of_length_pos (by omega : 0 < digits.length)
      obtain ⟨m, hm⟩ := exists_hexValue?_of_mem hvalue List.mem_cons_self
      have hne : d ≠ '\x7b' := by
        rintro rfl
        cases hm
      simpa [Text.headIs] using hne
    rw [escape_unit hbrace (fixedHex?_eq_some_iff.2 ⟨digits, s, n, rfl, hlength, hvalue, rfl⟩), hlength]
  | @codePoint digits _ n hne hvalue hn =>
    refine ⟨_, _, rfl, .inl ?_⟩
    have hbraced : bracedHex (digits ++ CodePoint.ofChar '\x7d' :: s) = .ok (.ofNat n, digits.length) :=
      bracedHex_eq_ok_iff.2 ⟨digits, s, n, rfl, hne, hvalue, hn, rfl, rfl⟩
    rw [List.cons_append, List.append_assoc, List.singleton_append, escape_braced hbraced]
    simp
  | lineBreak => exact ⟨_, _, rfl, .inl (escape_lineTerminator (by decide) (by decide) _)⟩
  | @lineTerminator d _ h hpair =>
    refine ⟨_, [], rfl, .inl ?_⟩
    have hcontrol : ∀ d ∈ lineTerminators, controlEscape? d = none := by decide
    rw [List.nil_append, escape_lineTerminator (hcontrol d h) (isLineTerminator_iff.2 h),
      if_neg (by simpa using hpair)]
    rfl
  | @itself c _ hcontrol hline hx hu hdigit =>
    refine ⟨_, [], rfl, ?_⟩
    have hzero : c ≠ '0' := by
      rintro rfl
      exact absurd hdigit (by decide)
    have hline : isLineTerminator c = false :=
      Bool.eq_false_iff.2 fun h => hline (isLineTerminator_iff.1 h)
    rw [List.nil_append, escape_other (controlEscape?_eq_none_iff.2 hcontrol) hline hzero hx hu]
    split
    · next hwide => exact .inr ⟨rfl, .inl (by simp [isWideDigit, hwide, hdigit])⟩
    · exact .inl rfl

/-! ### Whole texts -/

theorem unescape_of_escape_error {f : EscapeFault} (h : escape d s = .error f) :
    unescape (CodePoint.ofChar '\\' :: d :: s) = .error f := by
  rw [unescape.eq_def]
  simp only [if_true, h]

/-- A text that is read is made of characters and escapes. -/
theorem isBody_of_unescape (h : unescape s = .ok w) : IsBody s w := by
  fun_induction unescape s generalizing w with
  | case1 =>
    cases h
    exact .nil
  | case2 => cases h
  | case3 => cases h
  | case4 d s u n hescape ih =>
    obtain ⟨w', hw', rfl⟩ := Except.map_eq_ok_iff.1 h
    have hbody := IsBody.escape (isEscape_of_escape hescape) (ih hw')
    rwa [List.cons_append, List.take_append_drop] at hbody
  | case5 c s hc ih =>
    obtain ⟨w', hw', rfl⟩ := Except.map_eq_ok_iff.1 h
    exact .character hc (ih hw')

/-- A text made of characters and escapes is read, if no digit misleads. -/
theorem unescape_of_isBody (h : IsBody s w) (hwide : ¬ MeetsWideDigit s) : unescape s = .ok w := by
  induction h with
  | nil => rw [unescape]
  | character hc _ ih =>
    rw [unescape_cons_of_ne hc, ih fun h => hwide (.character hc h)]
    rfl
  | @escape e s w u he h ih =>
    obtain ⟨d, t, rfl, hescape | ⟨-, hdigit⟩⟩ := escape_of_isEscape he
    · rw [List.cons_append, unescape_escape hescape, List.drop_left, ih fun h => hwide (.escape he h)]
      rfl
    · refine absurd ?_ hwide
      rcases hdigit with hd | ⟨rfl, rfl, c, hc, hdigit⟩
      · exact .behindBackslash hd
      · cases s with
        | nil => cases hc
        | cons b s =>
          obtain rfl := Option.some.inj hc
          exact .behindZero hdigit

/-- A text in which a digit misleads is refused. -/
theorem unescape_of_meetsWideDigit (h : MeetsWideDigit s) : ∃ f, unescape s = .error f := by
  induction h with
  | @behindBackslash d s h => exact ⟨_, unescape_of_escape_error (escape_of_isWideDigit h s)⟩
  | @behindZero d s h =>
    refine ⟨.octal '0', unescape_of_escape_error ?_⟩
    rw [escape_zero]
    exact if_pos (Bool.and_eq_true_iff.1 h).1
  | character hc _ ih =>
    obtain ⟨f, hf⟩ := ih
    exact ⟨f, by rw [unescape_cons_of_ne hc, hf]; rfl⟩
  | @escape e s u he h ih =>
    obtain ⟨f, hf⟩ := ih
    obtain ⟨d, t, rfl, hescape | ⟨hescape, -⟩⟩ := escape_of_isEscape he
    · exact ⟨f, by rw [List.cons_append, unescape_escape hescape, List.drop_left, hf]; rfl⟩
    · exact ⟨_, unescape_of_escape_error hescape⟩

/-- Reading a text gives the code points of its characters and escapes, unless a digit misleads. -/
theorem unescape_eq_ok_iff : unescape s = .ok w ↔ IsBody s w ∧ ¬ MeetsWideDigit s := by
  constructor
  · refine fun h => ⟨isBody_of_unescape h, fun hwide => ?_⟩
    obtain ⟨f, hf⟩ := unescape_of_meetsWideDigit hwide
    rw [h] at hf
    cases hf
  · exact fun h => unescape_of_isBody h.1 h.2

/-- Decoding the text between the quotes of a literal gives its value in the language, unless an escape
is misread because of a digit that is none of the ten; all else is refused. -/
theorem decodeBody_eq_ok_iff (s : Text) :
    (∀ v, decodeBody s = .ok v ↔ HasValue s v ∧ ¬ MeetsWideDigit s) ∧
      ((∃ f, decodeBody s = .error f) ↔ (∀ v, ¬ HasValue s v) ∨ MeetsWideDigit s) := by
  have hvalue (v : Text) : decodeBody s = .ok v ↔ HasValue s v ∧ ¬ MeetsWideDigit s := by
    calc decodeBody s = .ok v
      _ ↔ ∃ w, unescape s = .ok w ∧ joinPairs w = v := Except.map_eq_ok_iff
      _ ↔ ∃ w, (IsBody s w ∧ ¬ MeetsWideDigit s) ∧ v.flatMap units = w.flatMap units ∧ Paired v := by
        simp only [unescape_eq_ok_iff, joinPairs_eq_iff]
      _ ↔ HasValue s v ∧ ¬ MeetsWideDigit s := by
        unfold HasValue
        grind
  refine ⟨hvalue, ?_⟩
  cases h : decodeBody s with
  | ok v =>
    obtain ⟨hv, hwide⟩ := (hvalue v).1 h
    refine iff_of_false (fun ⟨f, hf⟩ => nomatch hf) ?_
    rintro (hnone | hmeets)
    · exact hnone v hv
    · exact hwide hmeets
  | error f =>
    refine iff_of_true ⟨f, rfl⟩ ?_
    by_cases hwide : MeetsWideDigit s
    · exact .inr hwide
    · refine .inl fun v hv => ?_
      have hok := (hvalue v).2 ⟨hv, hwide⟩
      rw [h] at hok
      cases hok

/-- The language has an escape that is a superscript, which stands for itself; decoding refuses it. -/
theorem decodeBody_superscript :
    HasValue ['\\', '²'] ['²'] ∧ decodeBody ['\\', '²'] = .error (.octal '²') := by
  have hcontrol : controlEscape? '²' = none := by decide
  have hescape : IsEscape ['²'] [] (some '²') :=
    .itself (controlEscape?_eq_none_iff.1 hcontrol) (by decide) (by decide) (by decide) (by decide)
  refine ⟨⟨_, .escape hescape .nil, rfl, .singleton _⟩, ?_⟩
  rw [decodeBody, unescape_of_escape_error (escape_of_isWideDigit (by decide) [])]
  rfl

end StringLiteral

end ScriptBundle
