import ScriptBundle.Proofs.Token.Layout

/-!
# Punctuators

A punctuator is an operator of the table, or a code point on its own. Where the lexer reads one it takes
the longest that stands there, because no operator of the table is behind a shorter one, and it reads one
only where no comment, number, string or template starts. The language knows one exception to the longest
match: a `?` in front of a dot and a digit belongs to a conditional, and a number starts with the dot. The
lexer does not make it, so a conditional such as `c?.5:1` is read as the access to a member.

* `IsPunctuator`, `StandsAt`, `IsLongest`: punctuators, where they stand, and the longest of them;
* `SplitsNumber`, `Meant`: the exception, and the punctuators that the language means;
* `longest_punctuator`: the table is in the right order;
* `longest_of_tokenize`: the operators and punctuators among the tokens of a source.
-/

namespace ScriptBundle

/-- The kinds of operators and punctuators. -/
def TokenKind.isPunctuator : TokenKind → Bool
  | .leftBrace | .rightBrace | .leftParen | .rightParen | .leftBracket | .rightBracket | .comma
  | .semicolon | .dot | .star | .equals | .colon | .operator => true
  | _ => false

namespace Lexeme

/-- An operator of the table, or a code point on its own. -/
def IsPunctuator (w : Text) : Prop := w ∈ operators ∨ w.length = 1

/-- The punctuator `w` stands at the head of the text `s`. -/
def StandsAt (s w : Text) : Prop := IsPunctuator w ∧ w <+: s

/-- The text `w` is one of those with the property `P`, and none of them is longer. -/
def IsLongest (P : Text → Prop) (w : Text) : Prop := P w ∧ ∀ v, P v → v.length ≤ w.length

/-- The punctuator `w` at the head of `s` would take the dot of a number: it is `?.`, and a digit is
behind it. -/
def SplitsNumber (s w : Text) : Prop := w = "?." ∧ (s.drop 2).head?.any (·.isAsciiDigit)

instance (s w : Text) : Decidable (SplitsNumber s w) := inferInstanceAs (Decidable (_ ∧ _))

/-- The punctuator `w` stands at the head of `s`, and the language does not forbid it there. -/
def Meant (s w : Text) : Prop := StandsAt s w ∧ ¬ SplitsNumber s w

/-- A comment, a number, a string or a template starts with the text. -/
def startsOther : Text → Bool
  | [] => false
  | c :: s =>
    (c = '/' && (Text.headIs s '/' || Text.headIs s '*')) || startsNumber c s ||
      c = '\'' || c = '"' || c = '`'

/-! ### The longest match -/

section Longest

variable {operand : Bool} {c : CodePoint} {s w : Text} {k : TokenKind} {n : Nat}

/-- An operator at the head of a text is as much of the text as it is long. -/
theorem take_of_isPrefixOf (hw : w ≠ []) (h : w.isPrefixOf (c :: s)) :
    c :: s.take (w.length - 1) = w := by
  obtain ⟨d, v, rfl⟩ := List.exists_cons_of_ne_nil hw
  obtain ⟨rest, hrest⟩ := List.isPrefixOf_iff_prefix.1 h
  obtain ⟨rfl, rfl⟩ := List.cons.inj hrest
  simp

/-- No operator of the table is behind a shorter one. -/
theorem pairwise_operators : operators.Pairwise fun op op' => op'.length ≤ op.length := by
  decide

/-- The operator that is found first is the longest. -/
theorem isLongest_of_find? (h : operators.find? (·.isPrefixOf (c :: s)) = some w) :
    IsLongest (StandsAt (c :: s)) w := by
  have htwo : ∀ op ∈ operators, 2 ≤ op.length := by decide
  obtain ⟨hstarts, before, after, htable, hbefore⟩ := List.find?_eq_some_iff_append.1 h
  have hw : w ∈ operators := List.mem_of_find?_eq_some h
  refine ⟨⟨.inl hw, List.isPrefixOf_iff_prefix.1 hstarts⟩, ?_⟩
  rintro v ⟨hv | hv, hvs⟩
  · have hpairs := pairwise_operators
    rw [htable, List.pairwise_append] at hpairs
    rw [htable] at hv
    rcases List.mem_append.1 hv with hv | hv
    · -- What is in front of it in the table does not stand here.
      have hnot := hbefore v hv
      rw [List.isPrefixOf_iff_prefix.2 hvs] at hnot
      cases hnot
    · rcases List.mem_cons.1 hv with rfl | hv
      · exact le_rfl
      · exact (List.pairwise_cons.1 hpairs.2.1).1 v hv
  · have := htwo w hw
    omega

/-- The lexer takes the longest punctuator. -/
theorem longest_punctuator (c : CodePoint) (s : Text) :
    IsLongest (StandsAt (c :: s)) (c :: s.take (punctuator c s).2) := by
  unfold punctuator
  split
  · next op hop =>
    have hne : ∀ op ∈ operators, op ≠ [] := by decide
    have hstarts : op.isPrefixOf (c :: s) = true := by simpa using List.find?_some hop
    rw [take_of_isPrefixOf (hne op (List.mem_of_find?_eq_some hop)) hstarts]
    exact isLongest_of_find? hop
  · next hnone =>
    refine ⟨⟨.inr rfl, s, rfl⟩, ?_⟩
    rintro v ⟨hv | hv, hvs⟩
    · exact absurd (List.isPrefixOf_iff_prefix.2 hvs) (List.find?_eq_none.1 hnone v hv)
    · exact Nat.le_of_eq hv

/-- A punctuator is read where nothing else starts. -/
theorem Head.of_isPunctuator (h : Head operand c s (token k) n) (hk : k.isPunctuator) :
    n = (punctuator c s).2 ∧ startsOther (c :: s) = false := by
  generalize hl : token k = l at h
  cases h with
  | space | line | block | opening => cases hl
  | word =>
    cases hl
    unfold wordKind at hk
    repeat' split at hk
    all_goals cases hk
  | number | string | template | regex =>
    cases hl
    cases hk
  | mark _ _ hnumber hquote hslash =>
    refine ⟨rfl, ?_⟩
    have hcomment : (c = '/' && (Text.headIs s '/' || Text.headIs s '*')) = false := by
      by_cases hc : c = '/'
      · simp [hslash hc]
      · simp [hc]
    simp [startsOther, hcomment, hnumber, hquote]

/-- The language means the longest punctuator, unless it would take the dot of a number. -/
theorem isLongest_meant_iff (h : IsLongest (StandsAt s) w) :
    IsLongest (Meant s) w ↔ ¬ SplitsNumber s w := by
  constructor
  · intro hmeant
    exact hmeant.1.2
  · intro hsplits
    exact ⟨⟨h.1, hsplits⟩, fun v hv => h.2 v hv.1⟩

end Longest

end Lexeme

open Lexer Lexeme

variable {source : Text} {ts : TokenStream} {t : Token}

/-- Each operator or punctuator of a source is the longest that stands where it starts, and no comment,
number, string or template starts there. It is the one that the language means, unless it is a `?.` that
takes the dot of a number. -/
theorem longest_of_tokenize (h : tokenize source = .ok ts) (ht : t ∈ ts.tokens)
    (hk : t.kind.isPunctuator) :
    IsLongest (StandsAt (source.drop t.start.offset)) t.text ∧
      startsOther (source.drop t.start.offset) = false ∧
      (IsLongest (Meant (source.drop t.start.offset)) t.text ↔
        ¬ SplitsNumber (source.drop t.start.offset) t.text) := by
  obtain ⟨-, ⟨⟨operand, frames⟩, p, s⟩, y, hat, hs⟩ := tokenAt_of_tokenize h ht
  obtain rfl : frames = [] := hat.before
  obtain rfl : p = t.start := hat.start
  obtain rfl : s = source.drop t.start.offset := hs
  have hkind : t.kind ≠ .template := by
    intro htemplate
    rw [htemplate] at hk
    cases hk
  obtain ⟨c, w, htext, hhead⟩ := hat.head hkind
  have hrest : source.drop t.start.offset = c :: (w ++ y.rest) := by
    have := hat.text
    rwa [htext] at this
  obtain ⟨hlength, hother⟩ := hhead.of_isPunctuator hk
  have hw : t.text = c :: (w ++ y.rest).take (punctuator c (w ++ y.rest)).2 := by
    rw [htext, ← hlength, List.take_left]
  have hlongest := longest_punctuator c (w ++ y.rest)
  rw [← hw, ← hrest] at hlongest
  exact ⟨hlongest, hrest ▸ hother, isLongest_meant_iff hlongest⟩

/-- An assignment operator of four code points, behind a division and in front of an optional member. -/
theorem longest_in_shiftAssignment :
    ∃ ts t, tokenize "x/y>>>=z?.w" = .ok ts ∧ t ∈ ts.tokens ∧ t.kind.isPunctuator ∧ t.text = ">>>=" ∧
      IsLongest (StandsAt ((Text.ofString "x/y>>>=z?.w").drop t.start.offset)) t.text ∧
      startsOther ((Text.ofString "x/y>>>=z?.w").drop t.start.offset) = false ∧
      (IsLongest (Meant ((Text.ofString "x/y>>>=z?.w").drop t.start.offset)) t.text ↔
        ¬ SplitsNumber ((Text.ofString "x/y>>>=z?.w").drop t.start.offset) t.text) := by
  obtain ⟨ts, h, hts⟩ := Except.exists_of_any_toOption (x := tokenize "x/y>>>=z?.w")
    (p := fun ts => ∃ t ∈ ts.tokens, t.kind.isPunctuator ∧ t.text = ">>>=") (by decide +kernel)
  obtain ⟨t, ht, hk, htext⟩ := of_decide_eq_true hts
  exact ⟨ts, t, h, ht, hk, htext, longest_of_tokenize h ht hk⟩

/-- In the conditional `c?.5:1` a `?.` is read, although the language means a `?` there. -/
theorem member_in_conditional :
    ∃ ts t, tokenize "c?.5:1" = .ok ts ∧
      ts.tokens.map (·.text) = ["c", "?.", "5", ":", "1"].map Text.ofString ∧ t ∈ ts.tokens ∧
      t.kind.isPunctuator ∧
      ¬ IsLongest (Meant ((Text.ofString "c?.5:1").drop t.start.offset)) t.text ∧
      IsLongest (Meant ((Text.ofString "c?.5:1").drop t.start.offset)) "?" := by
  obtain ⟨ts, h, hts⟩ := Except.exists_of_any_toOption (x := tokenize "c?.5:1")
    (p := fun ts => ts.tokens.map (·.text) = ["c", "?.", "5", ":", "1"].map Text.ofString ∧
      ∃ t ∈ ts.tokens, t.kind.isPunctuator ∧ t.text = "?." ∧
        (Text.ofString "c?.5:1").drop t.start.offset = "?.5:1") (by decide +kernel)
  obtain ⟨htexts, t, ht, hk, htext, hrest⟩ := of_decide_eq_true hts
  have hoperator : ∀ op ∈ operators, op <+: "?.5:1" → op = "?." := by decide
  refine ⟨ts, t, h, htexts, ht, hk, ?_, ?_⟩
  · rw [hrest, htext]
    intro hmeant
    exact hmeant.1.2 ⟨rfl, by decide⟩
  · rw [hrest]
    refine ⟨⟨⟨.inr rfl, ".5:1", by decide⟩, fun h => absurd h.1 (by decide)⟩, ?_⟩
    rintro v ⟨⟨hv | hv, hvs⟩, hsplits⟩
    · exact absurd ⟨hoperator v hv hvs, by decide⟩ hsplits
    · exact Nat.le_of_eq hv

end ScriptBundle
