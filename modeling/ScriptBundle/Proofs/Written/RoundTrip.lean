import ScriptBundle.Proofs.Statement.Recorded
import ScriptBundle.Proofs.Written.Reading

/-!
# Scanning what is written

A source of imports and re-exports is scanned to the declarations that it was written from, each with
the piece of the source from its keyword to its last token.

* `Printed`, `statementsAt`: declarations with white space and comments, and their statements;
* `scanFrom_spells`: the scanner reads one declaration after the other;
* `moduleStatements_written`: the statements of a source that is written in declarations.
-/

namespace ScriptBundle.Written

open Statement

/-- A declaration, with white space and comments in front of its symbols. -/
structure Printed where
  declaration : Declaration
  pieces : List Piece
  symbols_eq : pieces.map Piece.symbol = declaration.symbols

/-- The pieces of declarations that stand one behind the other. -/
def piecesOf (ds : List Printed) : List Piece := ds.flatMap Printed.pieces

/-- The statement of a declaration whose pieces start at a position. -/
def Printed.statementAt (pos : Position) (d : Printed) : Statement :=
  ⟨pos.after ((d.pieces.head?.map Piece.gap).getD []), pos.offset + (textOf d.pieces).length,
    d.declaration.form⟩

/-- The statements of declarations that stand one behind the other from a position on. -/
def statementsAt (pos : Position) : List Printed → List Statement
  | [] => []
  | d :: ds => d.statementAt pos :: statementsAt (pos.after (textOf d.pieces)) ds

theorem piecesOf_cons (d : Printed) (ds : List Printed) :
    piecesOf (d :: ds) = d.pieces ++ piecesOf ds := rfl

theorem Declaration.exists_symbols_eq (d : Declaration) :
    ∃ s rest, d.symbols = s :: rest ∧ (s = importWord ∨ s = exportWord) := by
  cases d with
  | run source => exact ⟨_, _, rfl, .inl rfl⟩
  | imports bindings source => exact ⟨_, _, rfl, .inl rfl⟩
  | exportAll source => exact ⟨_, _, rfl, .inr rfl⟩
  | exportAs name source => exact ⟨_, _, rfl, .inr rfl⟩
  | exportNames names source => exact ⟨_, _, rfl, .inr rfl⟩

/-- A declaration starts with its keyword. -/
theorem Printed.exists_pieces_eq (d : Printed) :
    ∃ p ps, d.pieces = p :: ps ∧ (p.symbol = importWord ∨ p.symbol = exportWord) := by
  obtain ⟨s, rest, hsymbols, hs⟩ := d.declaration.exists_symbols_eq
  obtain ⟨p, ps, hpieces, hp, -⟩ := List.map_eq_cons_iff.1 (d.symbols_eq.trans hsymbols)
  exact ⟨p, ps, hpieces, hp ▸ hs⟩

theorem Printed.spells (d : Printed) (pos : Position) :
    Spells (tokensAt pos d.pieces) d.declaration.symbols := d.symbols_eq ▸ spells_tokensAt pos d.pieces

theorem atKeyword_tokensAt (pos : Position) (ds : List Printed) :
    AtKeyword (tokensAt pos (piecesOf ds)) := by
  intro u hu
  cases ds with
  | nil => cases hu
  | cons d ds =>
    obtain ⟨p, ps, hpieces, hp⟩ := d.exists_pieces_eq
    rw [piecesOf_cons, hpieces, List.cons_append, tokensAt_cons] at hu
    cases hu
    exact hp.imp (congrArg Symbol.kind) (congrArg Symbol.kind)

/-- The scanner reads one declaration after the other. -/
theorem scanFrom_spells (last : Token) {ds : List Printed} {prev : Option Token} {pos : Position}
    (hline : (tokensAt pos (piecesOf ds)).IsChain SameLine) (hprev : prev.any (·.selectsMember) = false) :
    scanFrom last prev 0 (tokensAt pos (piecesOf ds)) = .ok (statementsAt pos ds) := by
  induction ds generalizing prev pos with
  | nil => rw [piecesOf, List.flatMap_nil, tokensAt, List.map_nil, Lexer.tokensAt, scanFrom, statementsAt]
  | cons d ds ih =>
    rw [piecesOf_cons, tokensAt_append] at hline ⊢
    obtain ⟨hline, hrest, -⟩ := List.isChain_append.1 hline
    obtain ⟨word, rest, t, hts, hlast, hread⟩ := readStatement_spells last (d.spells pos) hline
      (atKeyword_tokensAt (pos.after (textOf d.pieces)) ds)
    have hstart : word.start = pos.after ((d.pieces.head?.map Piece.gap).getD []) := by
      obtain ⟨p, ps, hpieces, -⟩ := d.exists_pieces_eq
      rw [hpieces, tokensAt_cons] at hts
      rw [hpieces, ← (List.cons.inj hts).1]
      rfl
    have hbefore : (some t).any (·.selectsMember) = false := by
      obtain ⟨s, -, hs⟩ := exists_symbol_of_spells (d.spells pos) (List.mem_of_getLast? hlast)
      exact selectsMember_of_sign hs
    have hih := ih hrest hbefore
    calc
      scanFrom last prev 0 (tokensAt pos d.pieces ++ tokensAt (pos.after (textOf d.pieces)) (piecesOf ds))
      _ = (scanFrom last (some t) 0 (tokensAt (pos.after (textOf d.pieces)) (piecesOf ds))).map
            (⟨word.start, t.stop, d.declaration.form⟩ :: ·) := by
        rw [← hlast, ← tokenBefore_append, hts, List.cons_append, scanFrom_cons, hprev, if_pos (by rfl),
          hread]
        rfl
      _ = .ok (statementsAt pos (d :: ds)) := by
        rw [hih, hstart, stop_tokensAt hlast]
        rfl

/-- The scanner gives back the declarations that a source was written from. -/
theorem moduleStatements_written (ds : List Printed) {final : Text} (h : Spaced (piecesOf ds) final) :
    moduleStatements (textOf (piecesOf ds) ++ final) = .ok (statementsAt .start ds) := by
  have hscan (last : Token) : scanFrom last none 0 (tokensAt .start (piecesOf ds)) =
      .ok (statementsAt .start ds) := scanFrom_spells last (isChain_tokensAt .start h) rfl
  simp only [moduleStatements, scanSource, tokenize_of_spaced h, Statement.scan, hscan, Except.map_ok]

/-- The specifier `"x"`. -/
def literalX : Literal where
  quote := '"'
  body := "x"
  value := "x"
  isQuote := .inr rfl
  quotable := .plain (by decide) (by decide) (by decide) .nil
  decodes := by decide +kernel

/-- The word `type` as the name of a binding. -/
def typeName : Identifier := ⟨⟨"type", _, _, rfl, by decide, by decide⟩, by decide⟩

theorem isWord_as : ∃ c w, Text.ofString "as" = c :: w ∧ Lexeme.startsWord c ∧ ∀ d ∈ w, Lexeme.inWord d :=
  ⟨_, _, rfl, by decide, by decide⟩

theorem isWord_from :
    ∃ c w, Text.ofString "from" = c :: w ∧ Lexeme.startsWord c ∧ ∀ d ∈ w, Lexeme.inWord d :=
  ⟨_, _, rfl, by decide, by decide⟩

/-- The declaration `import type, {as as from,} from "x"` behind a comment. -/
def defaultAndNames : Printed where
  declaration := .imports (.both typeName (.names
    ⟨[⟨.word ⟨"as", isWord_as⟩, some (.word ⟨"from", isWord_from⟩)⟩], true⟩)) ⟨literalX, none, false⟩
  pieces := [⟨"/**/", importWord⟩, ⟨" ", .word typeName.toWord⟩, ⟨[], .mark .comma⟩,
    ⟨[], .mark .leftBrace⟩, ⟨[], asWord⟩, ⟨" ", asWord⟩, ⟨"\n", fromWord⟩, ⟨[], .mark .comma⟩,
    ⟨[], .mark .rightBrace⟩, ⟨[], fromWord⟩, ⟨[], .literal literalX⟩]
  symbols_eq := rfl

/-- The scanner finds the declaration, at its place in the source. -/
theorem moduleStatements_defaultAndNames :
    Spaced (piecesOf [defaultAndNames]) "\n" ∧
      moduleStatements (textOf (piecesOf [defaultAndNames]) ++ "\n") =
        .ok [⟨⟨4, 1, 5⟩, 36, .imports "x" [⟨"default", "type", false⟩, ⟨"as", "from", false⟩] false⟩] := by
  have fits {s : Symbol} {p : Piece} (h : p.gap ≠ [] ∨ ¬s.RunsInto p.symbol)
      (hwith : p.symbol.text ≠ "with") : ∀ q ∈ some p, s.Fits q := by
    rintro q ⟨⟩
    exact ⟨fun hruns => h.resolve_right (absurd hruns), fun _ htext => absurd htext hwith⟩
  have space {c : CodePoint} {rest : Text} (hc : Lexeme.isSpace c) : Lexer.Trivia [c] rest :=
    .space hc (.nil rest)
  have hspaced : Spaced (piecesOf [defaultAndNames]) "\n" :=
    ⟨.blockComment .nil (.nil _), fits (.inl (by decide)) (by decide),
      space (by decide), fits (.inr id) (by decide),
      .nil _, fits (.inr id) (by decide),
      .nil _, fits (.inr id) (by decide),
      .nil _, fits (.inl (by decide)) (by decide),
      space (by decide), fits (.inl (by decide)) (by decide),
      space (by decide), fits (.inr id) (by decide),
      .nil _, fits (.inr id) (by decide),
      .nil _, fits (.inr id) (by decide),
      .nil _, fits (.inr id) (by decide),
      .nil _, (fun _ hq => nomatch hq), space (by decide)⟩
  refine ⟨hspaced, (moduleStatements_written [defaultAndNames] hspaced).trans ?_⟩
  decide +kernel

/-- A string that goes on behind a carriage return and a line feed has a value, but the lexer finds no
end of it, so `Quotable` leaves it out. -/
theorem unterminated_continuedLine :
    StringLiteral.decode "\"a\\\r\nb\"" = .ok "ab" ∧
      moduleStatements "import \"a\\\r\nb\"" = .error (.lexical ⟨.string, ⟨7, 1, 8⟩⟩) := by
  constructor <;> decide +kernel

end ScriptBundle.Written
