import ScriptBundle.Proofs.Token.Trivia
import ScriptBundle.Proofs.Written.Syntax

/-!
# Symbols with white space and comments

Symbols are written with any white space and comments in front of each, as long as two of them are kept
apart that would run into each other. The lexer finds the symbols again, one token for each.

* `Piece`, `Spaced`: symbols with what stands in front of them;
* `lexes_symbol`: a symbol is one token;
* `lays_of_spaced`: the lexer finds the symbols of a text;
* `SameLine`, `isChain_tokensAt`: attributes stay on the line of their specifier.
-/

namespace ScriptBundle.Written

open Lexeme (Head)
open Lexer (Trivia Gaps Lexes Lays)

/-- A symbol with the white space and the comments in front of it. -/
structure Piece where
  gap : Text
  symbol : Symbol

/-- The text of a piece. -/
def Piece.text (p : Piece) : Text := p.gap ++ p.symbol.text

/-- The text of a list of pieces. -/
def textOf (ps : List Piece) : Text := ps.flatMap Piece.text

/-- Two symbols that would be read differently with nothing between them: two words, or two stars. -/
def Symbol.RunsInto : Symbol → Symbol → Prop
  | .word _, .word _ => True
  | .mark .star, .mark .star => True
  | _, _ => False

/-- Whether a piece can stand behind a symbol: they do not run into each other, and attributes start on
the line where the specifier starts. -/
structure Symbol.Fits (s : Symbol) (p : Piece) : Prop where
  apart : s.RunsInto p.symbol → p.gap ≠ []
  sameLine : s.kind = .string → p.symbol.text = "with" → Text.lineFeeds (s.text ++ p.gap) = 0

/-- The pieces, with white space and comments between them and with `final` behind them, are the rest of
a source. -/
def Spaced : List Piece → Text → Prop
  | [], final => Trivia final []
  | p :: ps, final =>
    Trivia p.gap (p.symbol.text ++ (textOf ps ++ final)) ∧ (∀ q ∈ ps.head?, p.symbol.Fits q) ∧
      Spaced ps final

variable {s : Symbol} {p : Piece} {ps qs : List Piece} {final rest : Text} {operand : Bool}

theorem textOf_cons (p : Piece) (ps : List Piece) :
    textOf (p :: ps) = p.gap ++ (p.symbol.text ++ textOf ps) := by
  rw [textOf, List.flatMap_cons, Piece.text, List.append_assoc]
  rfl

theorem textOf_cons_text (p : Piece) (ps : List Piece) : textOf (p :: ps) = p.text ++ textOf ps := rfl

/-! ### Literals -/

/-- A literal ends at its second quote. -/
theorem stringLength?_quotable {quote : CodePoint} {body : Text} (h : Quotable quote body)
    (hquote : quote = '\'' ∨ quote = '"') (rest : Text) :
    Lexeme.stringLength? quote (body ++ quote :: rest) = some (body.length + 1) := by
  have hline : quote ≠ '\n' := by rcases hquote with rfl | rfl <;> decide
  have hback : quote ≠ '\\' := by rcases hquote with rfl | rfl <;> decide
  induction h with
  | nil =>
    unfold Lexeme.stringLength?
    simp [hline, hback]
  | plain hq hb hl _ ih =>
    rw [List.cons_append]
    unfold Lexeme.stringLength?
    rw [if_neg hl, if_neg hb, if_neg hq, ih]
    rfl
  | escaped c _ ih =>
    rw [List.cons_append, List.cons_append]
    unfold Lexeme.stringLength?
    rw [if_neg (by decide), if_pos rfl]
    exact congrArg (Option.map (· + 2)) ih

theorem decode_text (l : Literal) : StringLiteral.decode l.text = .ok l.value := by
  have hlast : (l.body ++ [l.quote]).getLast? = some l.quote := by simp
  have hquote : (l.quote = '\'' || l.quote = '"') = true := by
    rcases l.isQuote with h | h <;> simp [h]
  rw [Literal.text, StringLiteral.decode, hquote, hlast, List.dropLast_concat]
  simpa using l.decodes

theorem lexes_literal (l : Literal) (rest : Text) : Lexes operand .string l.text rest := by
  have hlength := stringLength?_quotable l.quotable l.isQuote rest
  have hhead : Head operand l.quote ((l.body ++ [l.quote]) ++ rest) (.token .string)
      (l.body ++ [l.quote]).length := by
    rw [List.append_assoc, List.length_append, List.length_singleton]
    exact .string l.isQuote hlength
  exact Lexer.lexes_of_head hhead

/-! ### What a symbol can stand in front of -/

/-- Nothing at the head of `rest` goes on with the symbol. -/
def Symbol.EndsBefore (s : Symbol) (rest : Text) : Prop :=
  match s with
  | .word _ => ∀ d ∈ rest.head?, Lexeme.inWord d = false
  | .mark .star => ∀ d ∈ rest.head?, d ≠ '*' ∧ d ≠ '='
  | _ => True

/-- A star in front of anything but a star or an equals sign is no operator. -/
theorem lexes_star (h : ∀ d ∈ rest.head?, d ≠ '*' ∧ d ≠ '=') : Lexes operand .star "*" rest := by
  have hall : ∀ op ∈ Lexeme.operators, op.head? = some (CodePoint.ofChar '*') →
      ∃ d ∈ op.tail.head?, d = '*' ∨ d = '=' := by decide +kernel
  refine Lexer.lexes_mark (c := '*') (by decide) (by decide) rfl (by decide) (by decide) fun op hop hc => ?_
  obtain ⟨d, hd, hor⟩ := hall op hop hc
  refine ⟨d, hd, fun hrest => ?_⟩
  obtain ⟨hstar, hequals⟩ := h d hrest
  exact hor.elim hstar hequals

/-- A symbol is one token in front of what does not go on with it. -/
theorem lexes_symbol (h : s.EndsBefore rest) : Lexes operand s.kind s.text rest := by
  have sealedMark {m : Mark} (hm : m.char ∈ Lexeme.sealedMarks) :
      Lexes operand (Lexeme.punctuatorKind m.char) [m.char] rest :=
    Lexer.lexes_of_head (w := []) (Lexeme.head_of_mem_sealedMarks hm operand rest)
  cases s with
  | word w =>
    obtain ⟨c, u, hw, hc, hu⟩ := w.isWord
    have hrest : rest.head?.all fun d => !Lexeme.inWord d := by
      cases hd : rest.head? with
      | none => rfl
      | some d => simpa using h d hd
    have hlexes : Lexes operand (Lexeme.wordKind (c :: u)) (c :: u) rest := Lexer.lexes_word hc hu hrest
    rwa [← hw] at hlexes
  | literal l => exact lexes_literal l rest
  | mark m =>
    cases m with
    | star => exact lexes_star h
    | comma => exact sealedMark (m := .comma) (by decide)
    | colon => exact sealedMark (by decide)
    | semicolon => exact sealedMark (by decide)
    | leftBrace => exact sealedMark (by decide)
    | rightBrace => exact sealedMark (by decide)

/-! ### What stands behind a symbol -/

/-- A symbol does not go on with white space or with a comment. -/
theorem endsBefore_of_mem_separators (h : ∀ d ∈ rest.head?, d ∈ Lexeme.separators) :
    s.EndsBefore rest := by
  cases s with
  | word w => exact fun d hd => (Lexeme.not_continues_of_mem_separators d (h d hd)).1
  | literal l => trivial
  | mark m =>
    have hmarks : ∀ d ∈ Lexeme.separators, d ≠ '*' ∧ d ≠ '=' := by decide
    cases m with
    | star => exact fun d hd => hmarks d (h d hd)
    | comma | colon | semicolon | leftBrace | rightBrace => trivial

/-- Symbols that do not run into each other can stand next to each other. -/
theorem endsBefore_symbol {s' : Symbol} (h : ¬s.RunsInto s') : s.EndsBefore (s'.text ++ rest) := by
  cases s' with
  | literal l =>
    refine endsBefore_of_mem_separators fun d hd => ?_
    obtain rfl : l.quote = d := Option.some.inj hd
    rcases l.isQuote with hq | hq <;> rw [hq] <;> decide
  | word w =>
    obtain ⟨c, u, hw, hc, -⟩ := w.isWord
    have hstar : ∀ d ∈ (w.text ++ rest).head?, d ≠ '*' ∧ d ≠ '=' := by
      intro d hd
      rw [hw] at hd
      obtain rfl : c = d := Option.some.inj hd
      constructor <;> rintro rfl <;> exact absurd hc (by decide)
    cases s with
    | word w' => exact absurd trivial h
    | literal l => trivial
    | mark m =>
      cases m with
      | star => exact hstar
      | comma | colon | semicolon | leftBrace | rightBrace => trivial
  | mark m =>
    have hword : Lexeme.inWord m.char = false := by cases m <;> decide
    cases s with
    | word w => exact fun d hd => Option.some.inj hd ▸ hword
    | literal l => trivial
    | mark m' =>
      cases m' with
      | star =>
        intro d hd
        obtain rfl : m.char = d := Option.some.inj hd
        cases m with
        | star => exact absurd trivial h
        | comma | colon | semicolon | leftBrace | rightBrace => decide
      | comma | colon | semicolon | leftBrace | rightBrace => trivial

theorem endsBefore_of_trivia {gap : Text} (hgap : gap ≠ []) (h : Trivia gap rest) :
    s.EndsBefore (gap ++ rest) := by
  obtain ⟨d, hd, hhead⟩ := (Lexer.gaps_of_trivia h).head?_mem hgap
  refine endsBefore_of_mem_separators fun d' hd' => ?_
  rw [List.head?_append, hhead] at hd'
  exact Option.some.inj hd' ▸ hd

theorem endsBefore_of_spaced (hfits : ∀ q ∈ ps.head?, s.Fits q) (h : Spaced ps final) :
    s.EndsBefore (textOf ps ++ final) := by
  cases ps with
  | nil =>
    by_cases hfinal : final = []
    · subst hfinal
      exact endsBefore_of_mem_separators fun d hd => by cases hd
    · have := endsBefore_of_trivia (s := s) hfinal h
      rwa [List.append_nil] at this
  | cons q ps =>
    rw [textOf_cons, List.append_assoc, List.append_assoc]
    by_cases hgap : q.gap = []
    · rw [hgap]
      exact endsBefore_symbol fun hruns => (hfits q rfl).apart hruns hgap
    · exact endsBefore_of_trivia hgap h.1

/-- The item of a piece. -/
def Piece.item (p : Piece) : Lexer.Item := ⟨p.gap, ⟨p.symbol.kind, p.symbol.text, .start⟩⟩

theorem textOf_map_item (ps : List Piece) : Lexer.textOf (ps.map Piece.item) = textOf ps := by
  rw [Lexer.textOf, textOf, List.flatMap_map]
  rfl

/-- The lexer finds the symbols. -/
theorem lays_of_spaced (h : Spaced ps final) : Lays operand (ps.map Piece.item) final := by
  induction ps generalizing operand with
  | nil => trivial
  | cons p ps ih =>
    obtain ⟨htrivia, hfits, hspaced⟩ := h
    refine ⟨?_, ?_, ih hspaced⟩
    · rw [textOf_map_item]
      exact Lexer.gaps_of_trivia htrivia
    · rw [textOf_map_item]
      exact lexes_symbol (endsBefore_of_spaced hfits hspaced)

/-! ### The tokens of a source -/

/-- A symbol as a token without its place. -/
def Symbol.sign (s : Symbol) : TokenKind × Text := (s.kind, s.text)

/-- The tokens of pieces that stand at a position. -/
def tokensAt (p : Position) (ps : List Piece) : List Token := Lexer.tokensAt p (ps.map Piece.item)

/-- The tokens are those of the symbols. -/
def Spells (ts : List Token) (ss : List Symbol) : Prop := ts.map Token.sign = ss.map Symbol.sign

/-- What starts with the word `with` behind a literal starts on the line of the literal. -/
def SameLine (t u : Token) : Prop := t.kind = .string → u.text = "with" → u.line = t.line

theorem tokensAt_cons (pos : Position) (p : Piece) (ps : List Piece) :
    tokensAt pos (p :: ps) =
      ⟨p.symbol.kind, p.symbol.text, pos.after p.gap⟩ :: tokensAt (pos.after p.text) ps := rfl

theorem tokensAt_append (pos : Position) (ps qs : List Piece) :
    tokensAt pos (ps ++ qs) = tokensAt pos ps ++ tokensAt (pos.after (textOf ps)) qs := by
  induction ps generalizing pos with
  | nil => rfl
  | cons p ps ih =>
    rw [List.cons_append, tokensAt_cons, tokensAt_cons, ih, List.cons_append, textOf_cons_text,
      Position.after_append]

theorem spells_tokensAt (pos : Position) (ps : List Piece) :
    Spells (tokensAt pos ps) (ps.map Piece.symbol) := by
  rw [Spells, tokensAt, Lexer.map_sign_tokensAt, List.map_map, List.map_map]
  rfl

/-- The last token ends where the pieces end. -/
theorem stop_tokensAt {pos : Position} {t : Token} (h : (tokensAt pos ps).getLast? = some t) :
    t.stop = pos.offset + (textOf ps).length := by
  induction ps generalizing pos with
  | nil => cases h
  | cons p ps ih =>
    have hlength : (textOf (p :: ps)).length = p.gap.length + p.symbol.text.length +
        (textOf ps).length := by
      rw [textOf_cons, List.length_append, List.length_append]
      omega
    rw [hlength]
    cases ps with
    | nil =>
      obtain rfl : (⟨p.symbol.kind, p.symbol.text, pos.after p.gap⟩ : Token) = t := Option.some.inj h
      rw [Token.stop, Position.offset_after]
      simp only [textOf, List.flatMap_nil, List.length_nil]
      omega
    | cons q ps =>
      rw [tokensAt_cons, tokensAt_cons, List.getLast?_cons_cons, ← tokensAt_cons] at h
      rw [ih h, Position.offset_after, Piece.text, List.length_append]
      omega

theorem isChain_tokensAt (pos : Position) (h : Spaced ps final) :
    (tokensAt pos ps).IsChain SameLine := by
  induction ps generalizing pos with
  | nil => exact .nil
  | cons p ps ih =>
    obtain ⟨-, hfits, hspaced⟩ := h
    rw [tokensAt_cons]
    refine List.isChain_cons.2 ⟨fun u hu hstring hwith => ?_, ih _ hspaced⟩
    cases ps with
    | nil => cases hu
    | cons q ps =>
      rw [tokensAt_cons] at hu
      cases hu
      have hline := (hfits q rfl).sameLine hstring hwith
      rw [Token.line, Token.line, ← Position.after_append, Piece.text, List.append_assoc,
        Position.after_append, Position.line_after, hline]
      rfl

theorem hashbang_of_head {source : Text} (h : ∀ d ∈ source.head?, d ≠ '#') : hashbang source = [] := by
  unfold hashbang
  refine if_neg fun hprefix => ?_
  obtain ⟨rest, hrest⟩ := List.isPrefixOf_iff_prefix.1 hprefix
  exact h '#' (by rw [← hrest]; rfl) rfl

/-- White space, comments and symbols start with no hash. -/
theorem head?_of_spaced (h : Spaced ps final) : ∀ d ∈ (textOf ps ++ final).head?, d ≠ '#' := by
  have trivia_head {gap rest : Text} (hgap : gap ≠ []) (h : Trivia gap rest) :
      ∀ d ∈ (gap ++ rest).head?, d ≠ '#' := by
    have hall : ∀ d ∈ Lexeme.separators, d ≠ '#' := by decide
    intro d hd
    obtain ⟨d', hd', hhead⟩ := (Lexer.gaps_of_trivia h).head?_mem hgap
    rw [List.head?_append, hhead] at hd
    exact Option.some.inj hd ▸ hall d' hd'
  have symbol_head (s : Symbol) (rest : Text) : ∀ d ∈ (s.text ++ rest).head?, d ≠ '#' := by
    intro d hd
    cases s with
    | word w =>
      obtain ⟨c, u, hw, hc, -⟩ := w.isWord
      rw [Symbol.text, hw] at hd
      obtain rfl : c = d := Option.some.inj hd
      rintro rfl
      exact absurd hc (by decide)
    | literal l =>
      obtain rfl : l.quote = d := Option.some.inj hd
      rcases l.isQuote with hq | hq <;> rw [hq] <;> decide
    | mark m =>
      obtain rfl : m.char = d := Option.some.inj hd
      cases m <;> decide
  cases ps with
  | nil =>
    by_cases hfinal : final = []
    · subst hfinal
      exact fun d hd => by cases hd
    · have := trivia_head hfinal h
      rwa [List.append_nil] at this
  | cons p ps =>
    rw [textOf_cons, List.append_assoc, List.append_assoc]
    by_cases hgap : p.gap = []
    · rw [hgap]
      exact symbol_head p.symbol _
    · exact trivia_head hgap h.1

/-- The tokens of a source that is written in pieces. -/
theorem tokenize_of_spaced (h : Spaced ps final) :
    tokenize (textOf ps ++ final) =
      .ok ⟨tokensAt .start ps, Position.start.after (textOf ps ++ final)⟩ := by
  have hfinal : Trivia final [] := by
    induction ps with
    | nil => exact h
    | cons p ps ih => exact ih h.2.2
  have hlays : Lays true (ps.map Piece.item) final := lays_of_spaced h
  have hreads := hlays.reads .start
  rw [textOf_map_item] at hreads
  have hgaps := (Lexer.gaps_of_trivia hfinal).reads
    (Lexer.operandBehind true ((ps.map Piece.item).map Lexer.Item.token))
    (Position.start.after (textOf ps))
  rw [List.append_nil, ← Position.after_append] at hgaps
  have hboth := hreads.trans hgaps
  rw [List.append_nil] at hboth
  refine tokenize_eq_ok_iff.2
    ⟨Lexer.operandBehind true ((ps.map Piece.item).map Lexer.Item.token), ?_⟩
  rw [Lexer.Place.first, hashbang_of_head (head?_of_spaced h)]
  exact hboth

end ScriptBundle.Written
