import ScriptBundle.Proofs.Token.Trivia
import ScriptBundle.StringLiteral

/-!
# Where an expression ends

An expression goes on for as long as the language lets it, and a statement without a semicolon ends with
it only where nothing else can be meant. What follows the expression decides: a line terminator in front
of a text with which no expression goes on ends the statement, as do a semicolon, a closing brace and the
end of the source. A function or a class can be called, and its members can be named, so a parenthesis on
the next line goes on with it.

* `goesOn`: the texts with which an expression goes on;
* `EndsBefore`: the places at which a statement that is an expression ends;
* `goesOn_append_of_lexes`: the first token of a text decides.
-/

namespace ScriptBundle

open Lexeme (Head inWord startsWord operators punctuator)

/-- The code points that start no statement behind an expression, but a call, the name of a member, a
template, an operator or a comma. A slash behind an expression divides. -/
def continuingMarks : List CodePoint :=
  ['(', '[', '`', ',', '?', '*', '/', '%', '<', '>', '=', '&', '^', '|']

/-- Whether an expression goes on with the text. It does not with `++` and `--`, which belong to what is
behind them when a line starts with them, nor with a number that starts with a dot. -/
def goesOn : Text → Bool
  | [] => false
  | c :: s =>
    c ∈ continuingMarks || (c = '.' && !s.head?.any (·.isAsciiDigit)) ||
      ((c = '+' || c = '-') && !Text.headIs s c) || (c = '!' && Text.headIs s '=') ||
      (c :: s).takeWhile inWord ∈ [Text.ofString "in", "instanceof"]

/-- A statement that ends with an expression ends in front of `next`, with the white space and the
comments `gap` between them. -/
def EndsBefore (gap next : Text) : Prop :=
  next = [] ∨ Text.headIs next ';' ∨ Text.headIs next '}' ∨
    ((∃ c ∈ gap, StringLiteral.isLineTerminator c) ∧ goesOn next = false)

instance (gap next : Text) : Decidable (EndsBefore gap next) :=
  inferInstanceAs (Decidable (_ ∨ _ ∨ _ ∨ (_ ∧ _)))

theorem endsBefore_nil (gap : Text) : EndsBefore gap [] := .inl rfl

/-- Whether a statement ends in front of a text can be seen from how the text starts. -/
theorem endsBefore_append_iff {gap text s : Text} (hne : text ≠ [])
    (h : goesOn (text ++ s) = goesOn text) : EndsBefore gap (text ++ s) ↔ EndsBefore gap text := by
  obtain ⟨c, w, rfl⟩ := List.exists_cons_of_ne_nil hne
  rw [EndsBefore, EndsBefore, h]
  simp [Text.headIs]

namespace Lexer

variable {operand : Bool} {kind : TokenKind} {c : CodePoint} {text w s o : Text}

/-- A punctuator goes on when an operator starts with it and with what is behind it. -/
theorem punctuator_pos (h : ∃ op ∈ operators, op.isPrefixOf (c :: s)) : 0 < (punctuator c s).2 := by
  have hlength : ∀ op ∈ operators, 1 < op.length := by decide
  unfold punctuator
  split
  · next op hop =>
    have := hlength op (List.mem_of_find?_eq_some hop)
    show 0 < op.length - 1
    omega
  · next hnone =>
    obtain ⟨op, hop, hprefix⟩ := h
    exact absurd hprefix (List.find?_eq_none.1 hnone op hop)

/-- A lexeme that ends with its first code point starts no longer token. -/
theorem length_eq_zero_of_head {k : TokenKind} {n : Nat} (h : Head operand c s (.token kind) 0)
    (h' : Head operand c s (.token k) n) : n = 0 :=
  (Prod.mk.inj (Except.ok.inj ((Lexeme.read_eq_ok_iff.2 h').symm.trans (Lexeme.read_eq_ok_iff.2 h)))).2

/-- No digit is behind a dot that is a token. -/
theorem not_digit_of_head (h : Head operand '.' s (.token kind) 0) :
    s.head?.any (·.isAsciiDigit) = false := by
  refine Bool.eq_false_iff.2 fun hany => ?_
  obtain ⟨d, hd, hdigit⟩ := (Option.any_eq_true _ _).1 hany
  obtain ⟨r, rfl⟩ := List.head?_eq_some_iff.1 hd
  obtain ⟨-, -, hdigit, halpha⟩ := digit_continues hdigit
  have hnumber : Lexeme.startsNumber '.' (d :: r) := by simp [Lexeme.startsNumber, hdigit]
  have := length_eq_zero_of_head h (.number (by decide) (by decide +kernel) hnumber)
  simp [Lexeme.numberLength, halpha] at this

/-- What is behind an operator of one code point makes no operator of two with it. -/
theorem not_operator_of_head (h : Head operand c s (.token kind) 0)
    (hc : c ∈ (['+', '-', '!'] : List CodePoint)) {d : CodePoint} (hop : ([c, d] : Text) ∈ operators) :
    Text.headIs s d = false := by
  refine Bool.eq_false_iff.2 fun hd => ?_
  obtain ⟨r, rfl⟩ := Lexeme.eq_cons_of_headIs hd
  have hall : ∀ e ∈ (['+', '-', '!'] : List CodePoint), Lexeme.isSpace e = false ∧
      startsWord e = false ∧ e.isDigit = false ∧ e ≠ '.' ∧ (e ≠ '\'' ∧ e ≠ '"' ∧ e ≠ '`') ∧ e ≠ '/' := by
    decide +kernel
  obtain ⟨hspace, hword, hdigit, hdot, hquote, hslash⟩ := hall c hc
  have hnumber : Lexeme.startsNumber c (d :: r) = false := by simp [Lexeme.startsNumber, hdigit, hdot]
  have := length_eq_zero_of_head h (.mark hspace hword hnumber hquote fun h => absurd h hslash)
  have := punctuator_pos (c := c) (s := d :: r) ⟨_, hop, by simp⟩
  omega

/-- The words with which an expression goes on start with the same letter. -/
theorem takeWhile_not_mem (h : c ≠ 'i') (v : Text) :
    (c :: v).takeWhile inWord ∉ [Text.ofString "in", "instanceof"] := by
  intro hmem
  have hhead : ((c :: v).takeWhile inWord).head? = some (CodePoint.ofChar 'i') := by
    simp only [List.mem_cons, List.not_mem_nil, or_false] at hmem
    rcases hmem with hmem | hmem <;> rw [hmem] <;> rfl
  rw [List.takeWhile_cons] at hhead
  split at hhead
  · exact h (Option.some.inj hhead)
  · cases hhead

/-- No expression goes on with a word that starts with another letter. -/
theorem endsBefore_of_letter (hc : c.isAsciiLetter) (hi : c ≠ 'i') (gap v : Text) :
    EndsBefore gap (c :: v) ↔ ∃ d ∈ gap, StringLiteral.isLineTerminator d := by
  have hmarks : ∀ d ∈ (';' : CodePoint) :: '}' :: '.' :: '+' :: '-' :: '!' :: continuingMarks,
      d.isAsciiLetter = false := by decide
  have hne : ∀ d ∈ (';' : CodePoint) :: '}' :: '.' :: '+' :: '-' :: '!' :: continuingMarks, c ≠ d := by
    rintro d hd rfl
    rw [hmarks c hd] at hc
    cases hc
  have hmark : c ∉ continuingMarks := fun h => hne c (by simp [h]) rfl
  have hgoesOn : goesOn (c :: v) = false := by
    simp [goesOn, hmark, takeWhile_not_mem hi, hne]
  simp [EndsBefore, Text.headIs, hgoesOn, hne]

/-- A dot, a sign or an exclamation mark that is a token stands in front of texts with the same head. -/
theorem head_of_short (h : Lexes operand kind [c] s) (ho : kind.isSealed ∨ o.head? = s.head?)
    (hc : c ∈ (['.', '+', '-', '!'] : List CodePoint)) :
    Head operand c s (.token kind) 0 ∧ o.head? = s.head? := by
  refine ⟨?_, ho.resolve_left fun hsealed => ?_⟩
  · obtain ⟨d, r, n, hs, ⟨hn, htext, -, -⟩ | ⟨hn, -⟩⟩ := (h.tokenAt .start).first
    · obtain ⟨rfl, rfl⟩ := List.cons.inj hs
      have hlength := List.length_take_of_le hn.length_le
      rw [← (List.cons.inj htext).2] at hlength
      obtain rfl : 0 = n := hlength
      exact hn
    · -- The token is no template literal.
      obtain ⟨rfl, -⟩ := List.cons.inj hs
      cases hn with
      | opening hback => exact absurd (hback ▸ hc) (by decide)
  · obtain ⟨⟨d, hd, hlast⟩, -⟩ := h.of_isSealed hsealed
    obtain rfl := Option.some.inj hlast
    have hnot : ∀ e ∈ (['.', '+', '-', '!'] : List CodePoint), e ∉ Lexeme.separators := by decide
    exact hnot _ hc hd

/-- A dot names a member or starts a number, whatever follows the token. -/
theorem digit_append_of_lexes (h : Lexes operand kind ('.' :: w) s)
    (ho : kind.isSealed ∨ o.head? = s.head?) :
    (w ++ o).head?.any (·.isAsciiDigit) = w.head?.any (·.isAsciiDigit) := by
  cases w with
  | cons => rfl
  | nil =>
    obtain ⟨hone, ho⟩ := head_of_short h ho (by decide)
    rw [List.nil_append, ho, not_digit_of_head hone]
    rfl

/-- A token decides whether it starts with an operator of two code points. -/
theorem headIs_append_of_lexes (h : Lexes operand kind (c :: w) s)
    (ho : kind.isSealed ∨ o.head? = s.head?) (hc : c ∈ (['+', '-', '!'] : List CodePoint))
    {d : CodePoint} (hop : ([c, d] : Text) ∈ operators) :
    Text.headIs (w ++ o) d = Text.headIs w d := by
  cases w with
  | cons => rfl
  | nil =>
    obtain ⟨hone, ho⟩ := head_of_short h ho (List.mem_cons_of_mem _ hc)
    rw [List.nil_append, Text.headIs, ho]
    exact not_operator_of_head hone hc hop

/-- No word goes on behind the token. -/
theorem takeWhile_append_of_lexes (h : Lexes operand kind (c :: w) s) (hc : startsWord c)
    (ho : kind.isSealed ∨ o.head? = s.head?) :
    (c :: (w ++ o)).takeWhile inWord = (c :: w).takeWhile inWord := by
  have hk := h.isWordKind_of_startsWord hc
  obtain ⟨_, _, htext, -, hw, -, hend⟩ := h.word_cases hk
  obtain ⟨rfl, rfl⟩ := List.cons.inj htext
  have ho : o.head? = s.head? := ho.resolve_left fun hsealed => by
    revert hk hsealed
    cases kind <;> decide
  have hstop : o.takeWhile inWord = [] := by
    cases o with
    | nil => rfl
    | cons d o =>
      rw [← ho] at hend
      exact List.takeWhile_cons_of_neg (by simpa using hend)
  rw [List.takeWhile_cons, List.takeWhile_append_of_pos hw, hstop, List.append_nil,
    List.takeWhile_cons, List.takeWhile_eq_self_iff.2 hw]

/-- The first token of a text decides whether an expression goes on with it. -/
theorem goesOn_append_of_lexes (h : Lexes operand kind text s)
    (ho : kind.isSealed ∨ o.head? = s.head?) : goesOn (text ++ o) = goesOn text := by
  obtain ⟨c, w, rfl⟩ := List.exists_cons_of_ne_nil h.ne_nil
  have hword : decide ((c :: (w ++ o)).takeWhile inWord ∈ [Text.ofString "in", "instanceof"]) =
      decide ((c :: w).takeWhile inWord ∈ [Text.ofString "in", "instanceof"]) := by
    by_cases hstart : startsWord c
    · rw [takeWhile_append_of_lexes h hstart ho]
    · have hi : c ≠ 'i' := by
        rintro rfl
        exact hstart (by decide +kernel)
      simp only [takeWhile_not_mem hi]
  have hmember : (c = '.' && !(w ++ o).head?.any (·.isAsciiDigit)) =
      (c = '.' && !w.head?.any (·.isAsciiDigit)) := by
    by_cases hc : c = '.'
    · rw [digit_append_of_lexes (hc ▸ h) ho]
    · simp [hc]
  have hsign : ((c = '+' || c = '-') && !Text.headIs (w ++ o) c) =
      ((c = '+' || c = '-') && !Text.headIs w c) := by
    by_cases hc : c = '+' ∨ c = '-'
    · rw [headIs_append_of_lexes h ho (by rcases hc with rfl | rfl <;> decide)
        (by rcases hc with rfl | rfl <;> decide)]
    · simp only [not_or] at hc
      simp [hc]
  have hbang : (c = '!' && Text.headIs (w ++ o) '=') = (c = '!' && Text.headIs w '=') := by
    by_cases hc : c = '!'
    · rw [headIs_append_of_lexes h ho (by rw [hc]; decide) (by rw [hc]; decide)]
    · simp [hc]
  rw [List.cons_append, goesOn, goesOn, hmember, hsign, hbang, hword]

end Lexer

end ScriptBundle
