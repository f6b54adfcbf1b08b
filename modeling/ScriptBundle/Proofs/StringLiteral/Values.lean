import ScriptBundle.Proofs.Token.Fragment

/-!
# The values of string literals

Joining the halves of surrogate pairs changes a text, but not the UTF-16 units that it stands for. The
text that is left is the only one with these units in which no two halves meet. So every value of a
literal can be written, and what is written denotes it.

* `flatMap_units_joinPairs`, `paired_joinPairs`, `joinPairs_eq_iff`: the text that joining leaves;
* `paired_of_decode`: no two halves meet in a value;
* `encode_represents`: a value and the literal that is written for it.
-/

namespace ScriptBundle

namespace StringLiteral

variable {a b c d : CodePoint} {s t v w : Text}

/-! ### Joined halves -/

/-- The number of the code point that two halves stand for. -/
theorem val_joined (ha : a.isHighSurrogate) (hb : b.isLowSurrogate) :
    (joined a b).val = 0x10000 + (a.val - 0xD800) * 0x400 + (b.val - 0xDC00) := by
  simp only [CodePoint.isHighSurrogate, CodePoint.isLowSurrogate, Bool.and_eq_true,
    decide_eq_true_eq] at ha hb
  exact CodePoint.val_ofNat (by omega)

/-- The units of two halves that are joined are the halves. -/
theorem units_joined (ha : a.isHighSurrogate) (hb : b.isLowSurrogate) :
    units (joined a b) = [a, b] := by
  have hval := val_joined ha hb
  simp only [CodePoint.isHighSurrogate, CodePoint.isLowSurrogate, Bool.and_eq_true,
    decide_eq_true_eq] at ha hb
  obtain ⟨hhigh, hlow⟩ := val_halves (joined a b)
  have hfirst : CodePoint.ofNat (0xD800 + ((joined a b).val - 0x10000) / 0x400) = a := by
    apply CodePoint.ext
    rw [hhigh]
    omega
  have hsecond : CodePoint.ofNat (0xDC00 + ((joined a b).val - 0x10000) % 0x400) = b := by
    apply CodePoint.ext
    rw [hlow]
    omega
  rw [units, if_neg (by omega), hfirst, hsecond]

/-- Two halves that are joined are no half themselves. -/
theorem isSurrogate_joined (ha : a.isHighSurrogate) (hb : b.isLowSurrogate) :
    (joined a b).isHighSurrogate = false ∧ (joined a b).isLowSurrogate = false := by
  have hval := val_joined ha hb
  simp only [CodePoint.isHighSurrogate, CodePoint.isLowSurrogate, Bool.and_eq_false_iff,
    decide_eq_false_iff_not]
  omega

/-- Half of a surrogate pair is a unit by itself. -/
theorem units_of_isSurrogate (h : c.isSurrogate) : units c = [c] := by
  simp only [CodePoint.isSurrogate, Bool.and_eq_true, decide_eq_true_eq] at h
  exact if_pos (by omega)

theorem isSurrogate_of_isHighSurrogate (h : c.isHighSurrogate) : c.isSurrogate := by
  simp only [CodePoint.isHighSurrogate, CodePoint.isSurrogate, Bool.and_eq_true,
    decide_eq_true_eq] at h ⊢
  omega

theorem isSurrogate_of_isLowSurrogate (h : c.isLowSurrogate) : c.isSurrogate := by
  simp only [CodePoint.isLowSurrogate, CodePoint.isSurrogate, Bool.and_eq_true,
    decide_eq_true_eq] at h ⊢
  omega

/-! ### The text that joining leaves -/

/-- Joining changes nothing about the units. -/
theorem flatMap_units_joinPairs (s : Text) : (joinPairs s).flatMap units = s.flatMap units := by
  fun_induction joinPairs s with
  | case1 a b s h ih =>
    obtain ⟨ha, hb⟩ := Bool.and_eq_true_iff.1 h
    have ha' := units_of_isSurrogate (isSurrogate_of_isHighSurrogate ha)
    have hb' := units_of_isSurrogate (isSurrogate_of_isLowSurrogate hb)
    simp only [List.flatMap_cons, units_joined ha hb, ha', hb', ih, List.cons_append, List.nil_append]
  | case2 a b s _ ih => rw [List.flatMap_cons, ih, ← List.flatMap_cons]
  | case3 => rfl

/-- A second half at the head of what joining leaves stood there before. -/
theorem head?_of_joinPairs (h : d ∈ (joinPairs (c :: s)).head?) (hd : d.isLowSurrogate) : d = c := by
  cases s with
  | nil => exact (Option.some.inj h).symm
  | cons b s =>
    rw [joinPairs] at h
    split at h
    · next hpair =>
      obtain ⟨hc, hb⟩ := Bool.and_eq_true_iff.1 hpair
      obtain rfl := Option.some.inj h
      rw [(isSurrogate_joined hc hb).2] at hd
      cases hd
    · exact (Option.some.inj h).symm

/-- Joining leaves no two halves that meet. -/
theorem paired_joinPairs (s : Text) : Paired (joinPairs s) := by
  fun_induction joinPairs s with
  | case1 a b s h ih =>
    obtain ⟨ha, hb⟩ := Bool.and_eq_true_iff.1 h
    refine List.isChain_cons.2 ⟨fun d _ hmeet => ?_, ih⟩
    rw [(isSurrogate_joined ha hb).1] at hmeet
    cases hmeet.1
  | case2 a b s h ih =>
    refine List.isChain_cons.2 ⟨fun d hd hmeet => ?_, ih⟩
    obtain rfl := head?_of_joinPairs hd hmeet.2
    exact h (Bool.and_eq_true_iff.2 hmeet)
  | case3 s h =>
    match s, h with
    | [], _ => exact .nil
    | [c], _ => exact .singleton c
    | a :: b :: s, h => exact absurd rfl (h a b s)

/-- Joining is told by its result: it has the same units, and no two halves meet in it. -/
theorem joinPairs_eq_iff : joinPairs s = v ↔ v.flatMap units = s.flatMap units ∧ Paired v := by
  constructor
  · rintro rfl
    exact ⟨flatMap_units_joinPairs s, paired_joinPairs s⟩
  · rintro ⟨hunits, hv⟩
    calc joinPairs s
      _ = joinPairs ((joinPairs s).flatMap units) := (joinPairs_units (paired_joinPairs s)).symm
      _ = joinPairs (v.flatMap units) := by rw [flatMap_units_joinPairs, hunits]
      _ = v := joinPairs_units hv

/-! ### Values and literals -/

/-- No two halves meet in the value of a literal. -/
theorem paired_of_decode (h : decode t = .ok v) : Paired v := by
  unfold decode at h
  split at h
  · split at h
    · obtain ⟨w, -, rfl⟩ := Except.map_eq_ok_iff.1 h
      exact paired_joinPairs w
    · cases h
  · cases h

/-- What is written for a value is one string token. -/
theorem tokenize_encode (v : Text) :
    ∃ ts, tokenize (encode v) = .ok ts ∧ ts.tokens.map Token.sign = [(.string, encode v)] :=
  Lexer.tokenize_of_writes (Lexer.writes_encode v true) rfl

/-- A text in which no two halves meet is written as one literal of ASCII characters, whose value it
is. The values of literals are such texts, so a value that is written is read back, and different
values are written differently. -/
theorem encode_represents :
    (∀ v, Paired v →
      (∀ c ∈ encode v, c.val < 0x80) ∧
      (∃ ts, tokenize (encode v) = .ok ts ∧ ts.tokens.map Token.sign = [(.string, encode v)]) ∧
      decode (encode v) = .ok v) ∧
    (∀ t v, decode t = .ok v → Paired v ∧ decode (encode v) = .ok v) ∧
    ∀ t t' v v', decode t = .ok v → decode t' = .ok v' → encode v = encode v' → v = v' := by
  refine ⟨fun v hv => ⟨fun c hc => ?_, tokenize_encode v, decode_encode hv⟩, fun t v h => ?_,
    fun t t' v v' h h' heq => ?_⟩
  · have := (mem_encode hc).2
    omega
  · have hv := paired_of_decode h
    exact ⟨hv, decode_encode hv⟩
  · have hv := decode_encode (paired_of_decode h)
    rw [heq, decode_encode (paired_of_decode h')] at hv
    exact (Except.ok.inj hv).symm

/-- A value with lone halves, one of them in front of a code point that is written as a pair. -/
def loneHalves : Text :=
  [⟨0xFEFF, by decide⟩, ⟨0xDC00, by decide⟩, ⟨0xD83D, by decide⟩, '😀', '"', '\n', '\x7f']

theorem encode_represents_loneHalves :
    Paired loneHalves ∧ decode (encode loneHalves) = .ok loneHalves ∧
      decode "'\\ufeff\\udc00\\ud83d\\ud83d\\ude00\"\\\n\\n\\x7f'" = .ok loneHalves ∧
      decode "'\\ud83d\\ude00'" = .ok ['😀'] ∧
      encode (['😀'] : Text) ≠ encode loneHalves := by
  have hpaired : Paired loneHalves := by decide
  have hhalves : decode "'\\ufeff\\udc00\\ud83d\\ud83d\\ude00\"\\\n\\n\\x7f'" = .ok loneHalves := by
    decide +kernel
  have hpair : decode "'\\ud83d\\ude00'" = .ok ['😀'] := by decide +kernel
  refine ⟨hpaired, (encode_represents.1 loneHalves hpaired).2.2, hhalves, hpair, fun heq => ?_⟩
  exact absurd (encode_represents.2.2 _ _ _ _ hpair hhalves heq) (by decide)

end StringLiteral

end ScriptBundle
