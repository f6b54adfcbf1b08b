import Mathlib.Data.List.Chain
import ScriptBundle.Except
import ScriptBundle.StringLiteral
import ScriptBundle.Token.Lexeme

/-!
# Literals that are written

An encoded value is a literal of printable ASCII characters. The lexer reads it as one string, and
its value is what was encoded, unless two halves of a surrogate pair met in that.

* `shortEscapes`, `encodePoint_cases`: the ways in which a code point is written;
* `mem_encode`: what a literal is made of;
* `stringLength?_encode`: where the lexer finds its end;
* `unescape_encodePoint`, `joinPairs_units`: how its value is read back;
* `Paired`, `decode_encode`: the value of a literal.
-/

namespace ScriptBundle

namespace StringLiteral

/-! ### Hexadecimal digits -/

/-- A printable ASCII character that has no meaning of its own inside a literal. -/
def Plain (d : CodePoint) : Prop := 0x20 ≤ d.val ∧ d.val < 0x7F ∧ d ≠ '"' ∧ d ≠ '\\'

instance (d : CodePoint) : Decidable (Plain d) := inferInstanceAs (Decidable (_ ∧ _))

theorem plain_digitChar : ∀ m < 16, Plain (Nat.digitChar m) ∧
    (CodePoint.ofChar (Nat.digitChar m)).hexValue? = some m ∧
    CodePoint.ofChar (Nat.digitChar m) ≠ '{' := by
  decide

theorem hex_four (n : Nat) : Text.hex 4 n =
    [CodePoint.ofChar (Nat.digitChar (n / 4096 % 16)), CodePoint.ofChar (Nat.digitChar (n / 256 % 16)),
      CodePoint.ofChar (Nat.digitChar (n / 16 % 16)), CodePoint.ofChar (Nat.digitChar (n % 16))] := by
  rw [Text.hex, show (List.range 4).reverse = [3, 2, 1, 0] by decide]
  simp

theorem plain_of_mem_hex {n : Nat} {d : CodePoint} (h : d ∈ Text.hex 4 n) : Plain d := by
  obtain ⟨i, -, rfl⟩ := List.mem_map.1 h
  exact (plain_digitChar _ (Nat.mod_lt _ (by decide))).1

/-- Four hexadecimal digits are read back. -/
theorem hexValue?_hex {n : Nat} (h : n < 0x10000) : Text.hexValue? (Text.hex 4 n) = some n := by
  have hdigit : ∀ m, (CodePoint.ofChar (Nat.digitChar (m % 16))).hexValue? = some (m % 16) :=
    fun m => (plain_digitChar _ (Nat.mod_lt _ (by decide))).2.1
  simp only [hex_four, Text.hexValue?, List.foldlM_cons, List.foldlM_nil, hdigit,
    Option.map_eq_map, Option.map_some, Option.bind_eq_bind, Option.bind_some, Option.pure_def,
    Option.some.injEq]
  omega

/-! ### How a code point is written -/

/-- The units that a code point is written in: beyond `0xFFFF` two halves of a surrogate pair. -/
def units (c : CodePoint) : Text :=
  if c.val < 0x10000 then [c]
  else [CodePoint.ofNat (0xD800 + (c.val - 0x10000) / 0x400),
    CodePoint.ofNat (0xDC00 + (c.val - 0x10000) % 0x400)]

/-- The two halves of a code point beyond `0xFFFF`. -/
theorem val_halves (c : CodePoint) :
    (CodePoint.ofNat (0xD800 + (c.val - 0x10000) / 0x400)).val =
        0xD800 + (c.val - 0x10000) / 0x400 ∧
      (CodePoint.ofNat (0xDC00 + (c.val - 0x10000) % 0x400)).val =
        0xDC00 + (c.val - 0x10000) % 0x400 := by
  have := c.isLt
  constructor <;> exact CodePoint.val_ofNat (by omega)

/-- A code point that starts no escape of its own stands for itself behind a backslash. -/
theorem escape_self {d : CodePoint} (hcontrol : controlEscape? d = none)
    (hline : isLineTerminator d = false) (hzero : d ≠ '0') (hx : d ≠ 'x') (hu : d ≠ 'u')
    (hdigit : d.isDigit = false) (s : Text) : escape d s = .ok (some d, 0) := by
  simp only [escape, hcontrol, hline, hzero, hx, hu, hdigit, decide_false, Bool.false_and,
    Bool.false_eq_true, if_false]

/-- The code points that are written as one character behind a backslash, each with that character. -/
def shortEscapes : List (CodePoint × CodePoint) :=
  [('"', '"'), ('\\', '\\'), ('\n', 'n'), ('\r', 'r'), ('\t', 't'), ('\x0c', 'f'), ('\x08', 'b')]

/-- A short escape consists of printable characters, and is read back. -/
theorem encodePoint_of_mem_shortEscapes {c d : CodePoint} (h : (c, d) ∈ shortEscapes) :
    encodePoint c = CodePoint.ofChar '\\' :: [d] ∧ (0x20 ≤ d.val ∧ d.val < 0x7F) ∧
      c.val < 0x10000 ∧ ∀ s, escape d s = .ok (some c, 0) := by
  have hwritten : ∀ x ∈ shortEscapes, encodePoint x.1 = CodePoint.ofChar '\\' :: [x.2] ∧
      (0x20 ≤ x.2.val ∧ x.2.val < 0x7F) ∧ x.1.val < 0x10000 := by
    decide
  have hread : ∀ x ∈ shortEscapes, controlEscape? x.2 = some x.1 ∨
      x.1 = x.2 ∧ (x.2 = '"' ∨ x.2 = '\\') := by
    decide
  obtain ⟨hc, hd, hbound⟩ := hwritten _ h
  refine ⟨hc, hd, hbound, fun s => ?_⟩
  obtain hcontrol | ⟨rfl, rfl | rfl⟩ : controlEscape? d = some c ∨ c = d ∧ (d = '"' ∨ d = '\\') :=
    hread _ h
  · rw [escape, hcontrol]
  all_goals
    exact escape_self (by decide) (by decide) (by decide) (by decide) (by decide) (by decide) s

/-- Without a short escape, a code point is written as it is or by its units. -/
theorem encodePoint_of_not_mem_shortEscapes {c : CodePoint} (h : c ∉ shortEscapes.map (·.1)) :
    (encodePoint c = [c] ∧ Plain c) ∨
      encodePoint c = (units c).flatMap fun u => unitEscape u.val := by
  have hne : c ≠ '"' ∧ c ≠ '\\' ∧ c ≠ '\n' ∧ c ≠ '\r' ∧ c ≠ '\t' ∧ c ≠ '\x0c' ∧ c ≠ '\x08' := by
    simpa [shortEscapes] using h
  have hlong : encodePoint c = if 0x20 ≤ c.val ∧ c.val < 0x7F then [c]
      else if c.val < 0x10000 then unitEscape c.val
      else unitEscape (0xD800 + (c.val - 0x10000) / 0x400) ++
        unitEscape (0xDC00 + (c.val - 0x10000) % 0x400) := by
    obtain ⟨hquote, hback, hline, hreturn, htab, hfeed, hbell⟩ := hne
    rw [encodePoint, if_neg hquote, if_neg hback, if_neg hline, if_neg hreturn, if_neg htab,
      if_neg hfeed, if_neg hbell]
  rw [hlong, units]
  by_cases hprint : 0x20 ≤ c.val ∧ c.val < 0x7F
  case pos => exact .inl ⟨if_pos hprint, hprint.1, hprint.2, hne.1, hne.2.1⟩
  case neg =>
    rw [if_neg hprint]
    refine .inr ?_
    by_cases hwidth : c.val < 0x10000
    case pos => rw [if_pos hwidth, if_pos hwidth, List.flatMap_singleton]
    case neg =>
      obtain ⟨hhigh, hlow⟩ := val_halves c
      rw [if_neg hwidth, if_neg hwidth, List.flatMap_cons, List.flatMap_singleton, hhigh, hlow]

/-- A code point is written behind a backslash, as it is, or as the numbers of its units. -/
theorem encodePoint_cases (c : CodePoint) :
    (∃ d : CodePoint, encodePoint c = CodePoint.ofChar '\\' :: [d] ∧ (0x20 ≤ d.val ∧ d.val < 0x7F) ∧
      c.val < 0x10000 ∧ ∀ s, escape d s = .ok (some c, 0)) ∨
    (encodePoint c = [c] ∧ Plain c) ∨
    encodePoint c = (units c).flatMap fun u => unitEscape u.val := by
  by_cases hshort : c ∈ shortEscapes.map (·.1)
  case pos =>
    obtain ⟨⟨c, d⟩, hd, rfl⟩ := List.mem_map.1 hshort
    exact .inl ⟨d, encodePoint_of_mem_shortEscapes hd⟩
  case neg => exact .inr (encodePoint_of_not_mem_shortEscapes hshort)

theorem unitEscape_eq (n : Nat) :
    unitEscape n = CodePoint.ofChar '\\' :: CodePoint.ofChar 'u' :: Text.hex 4 n := rfl

/-- A literal is made of printable ASCII characters. -/
theorem mem_encode {s : Text} {d : CodePoint} (h : d ∈ encode s) : 0x20 ≤ d.val ∧ d.val < 0x7F := by
  rcases List.mem_append.1 h with h | h
  · rcases List.mem_append.1 h with h | h
    · rw [List.mem_singleton.1 h]
      decide
    · obtain ⟨c, -, h⟩ := List.mem_flatMap.1 h
      rcases encodePoint_cases c with ⟨e, he, hprint, -⟩ | ⟨he, hplain⟩ | he
      · rw [he] at h
        rcases List.mem_pair.1 h with rfl | rfl
        · decide
        · exact hprint
      · rw [he, List.mem_singleton] at h
        exact h ▸ ⟨hplain.1, hplain.2.1⟩
      · rw [he] at h
        obtain ⟨u, -, h⟩ := List.mem_flatMap.1 h
        rw [unitEscape_eq] at h
        rcases List.mem_cons.1 h with rfl | h
        · decide
        · rcases List.mem_cons.1 h with rfl | h
          · decide
          · exact ⟨(plain_of_mem_hex h).1, (plain_of_mem_hex h).2.1⟩
  · rw [List.mem_singleton.1 h]
    decide

/-! ### Where the lexer finds the end -/

/-- The lexer passes over the text inside a double-quoted literal. -/
def Passed (w : Text) : Prop :=
  ∀ r, Lexeme.stringLength? '"' (w ++ r) = (Lexeme.stringLength? '"' r).map (· + w.length)

theorem passed_nil : Passed [] := fun r => by simp

theorem Passed.append {w w' : Text} (h : Passed w) (h' : Passed w') : Passed (w ++ w') := by
  intro r
  rw [List.append_assoc, h, h', Option.map_map, List.length_append]
  refine congrArg (Option.map · _) (funext fun n => ?_)
  simp only [Function.comp_apply]
  omega

theorem passed_plain {d : CodePoint} (h : Plain d) : Passed [d] := by
  obtain ⟨hlow, -, hquote, hback⟩ := h
  have hline : d ≠ '\n' := by
    rintro rfl
    exact absurd hlow (by decide)
  intro r
  simp only [List.singleton_append, Lexeme.stringLength?.eq_def _ (_ :: _), if_neg hline,
    if_neg hback, if_neg hquote]
  rfl

theorem passed_escape (d : CodePoint) : Passed (CodePoint.ofChar '\\' :: [d]) := by
  intro r
  have hline : CodePoint.ofChar '\\' ≠ '\n' := by decide
  simp only [List.cons_append, List.nil_append, Lexeme.stringLength?, if_neg hline, if_true]
  rfl

theorem passed_flatMap {α : Type} {f : α → Text} (h : ∀ a, Passed (f a)) (as : List α) :
    Passed (as.flatMap f) := by
  induction as with
  | nil => exact passed_nil
  | cons a as ih => exact (h a).append ih

theorem passed_of_plain {w : Text} (h : ∀ d ∈ w, Plain d) : Passed w := by
  induction w with
  | nil => exact passed_nil
  | cons d w ih =>
    exact (passed_plain (h d List.mem_cons_self)).append (ih fun e he => h e (List.mem_cons_of_mem d he))

theorem passed_unitEscape (n : Nat) : Passed (unitEscape n) := by
  have hdigits : Passed (Text.hex 4 n) := passed_of_plain fun _ hd => plain_of_mem_hex hd
  have := (passed_escape 'u').append hdigits
  rwa [List.cons_append, List.singleton_append, ← unitEscape_eq] at this

theorem passed_encodePoint (c : CodePoint) : Passed (encodePoint c) := by
  rcases encodePoint_cases c with ⟨d, he, -⟩ | ⟨he, hplain⟩ | he
  · rw [he]
    exact passed_escape d
  · rw [he]
    exact passed_plain hplain
  · rw [he]
    exact passed_flatMap (f := fun u : CodePoint => unitEscape u.val)
      (fun u => passed_unitEscape u.val) (units c)

/-- The lexer reads a literal up to its closing quote. -/
theorem stringLength?_encode (s r : Text) :
    Lexeme.stringLength? '"' (s.flatMap encodePoint ++ CodePoint.ofChar '"' :: r) =
      some ((s.flatMap encodePoint).length + 1) := by
  have hend : Lexeme.stringLength? '"' (CodePoint.ofChar '"' :: r) = some 1 := by
    rw [Lexeme.stringLength?.eq_def]
    rfl
  rw [passed_flatMap passed_encodePoint s, hend, Option.map_some, Nat.add_comm]

/-! ### The value -/

theorem unescape_cons_of_ne {c : CodePoint} (h : c ≠ '\\') (s : Text) :
    unescape (c :: s) = (unescape s).map (c :: ·) := by
  rw [unescape.eq_def]
  exact if_neg h

theorem unescape_escape {d : CodePoint} {s : Text} {v : Option CodePoint} {n : Nat}
    (h : escape d s = .ok (v, n)) :
    unescape (CodePoint.ofChar '\\' :: d :: s) = (unescape (s.drop n)).map (v.toList ++ ·) := by
  rw [unescape.eq_def]
  simp only [if_true, h]

/-- The number of a unit is read back. -/
theorem unescape_unitEscape (u : CodePoint) (hu : u.val < 0x10000) (s : Text) :
    unescape (unitEscape u.val ++ s) = (unescape s).map (u :: ·) := by
  have hlength : (Text.hex 4 u.val).length = 4 := by rw [hex_four]; rfl
  have hbrace : Text.headIs (Text.hex 4 u.val ++ s) '{' = false := by
    rw [hex_four]
    simpa [Text.headIs] using (plain_digitChar _ (Nat.mod_lt _ (by decide))).2.2
  have hfixed : fixedHex? 4 (Text.hex 4 u.val ++ s) = some u := by
    rw [fixedHex?, if_neg (by rw [List.length_append, hlength]; omega), List.take_left' hlength,
      hexValue?_hex hu, Option.map_some, CodePoint.ofNat_val]
  have hescape : escape 'u' (Text.hex 4 u.val ++ s) = .ok (some u, 4) := by
    have hcontrol : controlEscape? 'u' = none := by decide
    have hline : isLineTerminator 'u' = false := by decide
    have hzero : CodePoint.ofChar 'u' ≠ '0' := by decide
    have hx : CodePoint.ofChar 'u' ≠ 'x' := by decide
    simp only [escape, hcontrol, hline, hzero, hx, hbrace, hfixed, decide_false, Bool.false_and,
      Bool.false_eq_true, if_false, if_true]
  rw [unitEscape_eq, List.cons_append, List.cons_append, unescape_escape hescape,
    List.drop_left' hlength]
  rfl

theorem val_of_mem_units {c u : CodePoint} (h : u ∈ units c) : u.val < 0x10000 := by
  have := c.isLt
  obtain ⟨hhigh, hlow⟩ := val_halves c
  unfold units at h
  split at h
  · next hc => rwa [List.mem_singleton.1 h]
  · rw [List.mem_pair] at h
    rcases h with h | h
    · rw [h, hhigh]
      omega
    · rw [h, hlow]
      omega

/-- A written code point is read back as its units. -/
theorem unescape_encodePoint (c : CodePoint) (s : Text) :
    unescape (encodePoint c ++ s) = (unescape s).map (units c ++ ·) := by
  rcases encodePoint_cases c with ⟨d, he, -, hc, hd⟩ | ⟨he, hplain⟩ | he
  · rw [he, units, if_pos hc]
    exact unescape_escape (hd s)
  · have hval : c.val < 0x10000 := by have := hplain.2.1; omega
    rw [he, units, if_pos hval]
    exact unescape_cons_of_ne hplain.2.2.2 s
  · have hval : ∀ u ∈ units c, u.val < 0x10000 := fun u => val_of_mem_units
    rw [he]
    generalize units c = us at hval
    induction us with
    | nil =>
      rw [List.flatMap_nil, List.nil_append]
      cases unescape s <;> rfl
    | cons u us ih =>
      rw [List.flatMap_cons, List.append_assoc, unescape_unitEscape u (hval u List.mem_cons_self),
        ih fun v hv => hval v (List.mem_cons_of_mem u hv)]
      cases unescape s <;> rfl

theorem unescape_encode (s : Text) : unescape (s.flatMap encodePoint) = .ok (s.flatMap units) := by
  induction s with
  | nil => simp [unescape]
  | cons c s ih => rw [List.flatMap_cons, unescape_encodePoint, ih, Except.map_ok, List.flatMap_cons]

/-- No first half of a surrogate pair stands in front of a second half. -/
def Paired (s : Text) : Prop := s.IsChain fun c d => ¬ (c.isHighSurrogate ∧ d.isLowSurrogate)

instance (s : Text) : Decidable (Paired s) := inferInstanceAs (Decidable (List.IsChain _ s))

theorem joinPairs_cons {c : CodePoint} {s : Text}
    (h : ∀ d ∈ s.head?, ¬ (c.isHighSurrogate ∧ d.isLowSurrogate)) :
    joinPairs (c :: s) = c :: joinPairs s := by
  cases s with
  | nil => rfl
  | cons d s =>
    have := h d rfl
    rw [joinPairs, if_neg (by simpa using this)]

/-- The halves of a code point beyond `0xFFFF` are joined again. -/
theorem joinPairs_pair {c : CodePoint} (hc : ¬ c.val < 0x10000) (s : Text) :
    joinPairs (units c ++ s) = c :: joinPairs s := by
  have hlt := c.isLt
  obtain ⟨hhigh, hlow⟩ := val_halves c
  have hpair : (CodePoint.ofNat (0xD800 + (c.val - 0x10000) / 0x400)).isHighSurrogate ∧
      (CodePoint.ofNat (0xDC00 + (c.val - 0x10000) % 0x400)).isLowSurrogate := by
    simp only [CodePoint.isHighSurrogate, CodePoint.isLowSurrogate, hhigh, hlow, Bool.and_eq_true,
      decide_eq_true_eq]
    omega
  have hjoined : joined (CodePoint.ofNat (0xD800 + (c.val - 0x10000) / 0x400))
      (CodePoint.ofNat (0xDC00 + (c.val - 0x10000) % 0x400)) = c := by
    apply CodePoint.ext
    rw [joined, hhigh, hlow, CodePoint.val_ofNat] <;> omega
  rw [units, if_neg hc, List.cons_append, List.singleton_append, joinPairs,
    if_pos (by simpa using hpair), hjoined]

/-- The first unit of a code point beyond `0xFFFF` is no second half. -/
theorem isLowSurrogate_of_head?_units {c d : CodePoint} {s : Text}
    (h : (units c ++ s).head? = some d) (hd : d.isLowSurrogate) : d = c := by
  have hlt := c.isLt
  unfold units at h
  split at h
  · exact (Option.some.inj h).symm
  · obtain rfl := Option.some.inj h
    simp only [CodePoint.isLowSurrogate, Bool.and_eq_true, decide_eq_true_eq, (val_halves c).1] at hd
    omega

theorem joinPairs_units {s : Text} (h : Paired s) : joinPairs (s.flatMap units) = s := by
  induction s with
  | nil => rfl
  | cons c s ih =>
    have ih := ih h.tail
    rw [List.flatMap_cons]
    by_cases hc : c.val < 0x10000
    · rw [units, if_pos hc, List.singleton_append, joinPairs_cons, ih]
      rintro d hd ⟨hhigh, hlow⟩
      cases s with
      | nil => cases hd
      | cons e s =>
        rw [List.flatMap_cons] at hd
        obtain rfl := isLowSurrogate_of_head?_units hd hlow
        exact (List.isChain_cons_cons.1 h).1 ⟨hhigh, hlow⟩
    · rw [joinPairs_pair hc, ih]

/-- The value of a written literal is what was written, unless two halves met in it. -/
theorem decode_encode {s : Text} (h : Paired s) : decode (encode s) = .ok s := by
  have hencode : encode s = CodePoint.ofChar '"' :: (s.flatMap encodePoint ++ [CodePoint.ofChar '"']) :=
    rfl
  rw [hencode, decode]
  rw [if_pos (by simp)]
  rw [List.dropLast_concat, decodeBody, unescape_encode, Except.map_ok, joinPairs_units h]

end StringLiteral

end ScriptBundle
