import ScriptBundle.Proofs.Token.Lookahead
import ScriptBundle.Statement
import ScriptBundle.StringLiteral

/-!
# Declarations in writing

The imports and re-exports of plain script as they are written down: words, string literals and
punctuators, in the orders that the grammar allows. Words, identifiers and literals carry the proof that
they are well formed. A name between braces may be any word or string here, although an import binds
identifiers only.

* `Word`, `Identifier`, `Literal`, `Name`: what names are made of;
* `Element`, `Names`, `Attributes`, `Source`, `Clause`, `Bindings`: the pieces of a declaration;
* `Declaration`, with `Declaration.symbols`, what is written, and `Declaration.form`, what it says.
-/

namespace ScriptBundle.Written

/-- A word, with the escapes that it is written with. -/
structure Word where
  text : Text
  isWord : ∃ c w, text = c :: w ∧ Lexeme.startsWord c ∧ ∀ d ∈ w, Lexeme.inWord d

/-- A word other than `import` and `export`, which name no binding of a module. -/
structure Identifier extends Word where
  kind_eq : Lexeme.wordKind text = .identifier

/-- What can stand between two quotes: the quote, a backslash and a line feed only behind a backslash. -/
inductive Quotable (quote : CodePoint) : Text → Prop
  | nil : Quotable quote []
  | plain {c : CodePoint} {s : Text} (hquote : c ≠ quote) (hback : c ≠ '\\') (hline : c ≠ '\n')
      (hs : Quotable quote s) : Quotable quote (c :: s)
  | escaped (c : CodePoint) {s : Text} (hs : Quotable quote s) :
      Quotable quote (CodePoint.ofChar '\\' :: c :: s)

/-- A string literal with a value. -/
structure Literal where
  quote : CodePoint
  body : Text
  value : Text
  isQuote : quote = '\'' ∨ quote = '"'
  quotable : Quotable quote body
  decodes : StringLiteral.decodeBody body = .ok value

/-- The name of an export: a word, a keyword included, or a string. -/
inductive Name
  | word (w : Word)
  | literal (l : Literal)

/-- An element of a list of names: `a` or `a as b`. -/
structure Element where
  name : Name
  alias? : Option Name := none

/-- A list of names between braces. An empty list has no trailing comma. -/
structure Names where
  elements : List Element
  trailingComma : Bool := false

/-- The attributes of an import, such as `with {type: "json"}`. -/
structure Attributes where
  entries : List (Name × Literal)
  trailingComma : Bool := false

/-- The end of a declaration: the specifier of a module, its attributes and a semicolon. -/
structure Source where
  specifier : Literal
  attributes? : Option Attributes := none
  semicolon : Bool := false

/-- What an import takes from a module apart from its default: `* as n` or a list of names. -/
inductive Clause
  | star (n : Identifier)
  | names (ns : Names)

/-- What an import binds. -/
inductive Bindings
  | default (d : Identifier)
  | clause (c : Clause)
  | both (d : Identifier) (c : Clause)

/-- A declaration that names another module. -/
inductive Declaration
  /-- `import "x"`. -/
  | run (source : Source)
  /-- `import … from "x"`. -/
  | imports (bindings : Bindings) (source : Source)
  /-- `export * from "x"`. -/
  | exportAll (source : Source)
  /-- `export * as n from "x"`. -/
  | exportAs (name : Name) (source : Source)
  /-- `export {…} from "x"`. -/
  | exportNames (names : Names) (source : Source)

/-! ### What is written -/

/-- The punctuators of declarations. -/
inductive Mark
  | star
  | comma
  | colon
  | semicolon
  | leftBrace
  | rightBrace

/-- A piece of a declaration that is one token. -/
inductive Symbol
  | word (w : Word)
  | literal (l : Literal)
  | mark (m : Mark)

/-- The code point of a punctuator. -/
def Mark.char : Mark → CodePoint
  | .star => '*'
  | .comma => ','
  | .colon => ':'
  | .semicolon => ';'
  | .leftBrace => '\x7b'
  | .rightBrace => '\x7d'

/-- A literal with its quotes. -/
def Literal.text (l : Literal) : Text := l.quote :: (l.body ++ [l.quote])

namespace Symbol

/-- The text of a symbol. -/
def text : Symbol → Text
  | .word w => w.text
  | .literal l => l.text
  | .mark m => [m.char]

/-- The kind of token that a symbol is. -/
def kind : Symbol → TokenKind
  | .word w => Lexeme.wordKind w.text
  | .literal _ => .string
  | .mark m => Lexeme.punctuatorKind m.char

end Symbol

/-- The keyword of an import. -/
def importWord : Symbol := .word ⟨"import", _, _, rfl, by decide, by decide⟩

/-- The keyword of an export. -/
def exportWord : Symbol := .word ⟨"export", _, _, rfl, by decide, by decide⟩

/-- The word in front of the source of a declaration. -/
def fromWord : Symbol := .word ⟨"from", _, _, rfl, by decide, by decide⟩

/-- The word in front of another name. -/
def asWord : Symbol := .word ⟨"as", _, _, rfl, by decide, by decide⟩

/-- The word in front of attributes. -/
def withWord : Symbol := .word ⟨"with", _, _, rfl, by decide, by decide⟩

/-- Lists of symbols with commas between them, and behind the last one if there is to be a trailing
comma. -/
def separated (trailingComma : Bool) : List (List Symbol) → List Symbol
  | [] => []
  | [a] => a ++ if trailingComma then [.mark .comma] else []
  | a :: b :: rest => a ++ .mark .comma :: separated trailingComma (b :: rest)

/-- A group between braces. -/
def braced (inner : List Symbol) : List Symbol := .mark .leftBrace :: (inner ++ [.mark .rightBrace])

namespace Name

/-- The symbol of a name. -/
def symbol : Name → Symbol
  | .word w => .word w
  | .literal l => .literal l

/-- The text that a name stands for. -/
def value : Name → Text
  | .word w => w.text
  | .literal l => l.value

end Name

/-- The symbols of an element. -/
def Element.symbols (e : Element) : List Symbol :=
  e.name.symbol :: match e.alias? with
    | none => []
    | some a => [asWord, a.symbol]

/-- The symbols of a list of names. -/
def Names.symbols (ns : Names) : List Symbol :=
  braced (separated ns.trailingComma (ns.elements.map Element.symbols))

/-- The symbols of attributes. -/
def Attributes.symbols (a : Attributes) : List Symbol :=
  withWord :: braced (separated a.trailingComma
    (a.entries.map fun (key, value) => [key.symbol, .mark .colon, .literal value]))

/-- The symbols at the end of a declaration. -/
def Source.symbols (s : Source) : List Symbol :=
  .literal s.specifier ::
    ((s.attributes?.map Attributes.symbols).getD [] ++ if s.semicolon then [.mark .semicolon] else [])

/-- The symbols of a clause. -/
def Clause.symbols : Clause → List Symbol
  | .star n => [.mark .star, asWord, .word n.toWord]
  | .names ns => ns.symbols

/-- The symbols between `import` and `from`. -/
def Bindings.symbols : Bindings → List Symbol
  | .default d => [.word d.toWord]
  | .clause c => c.symbols
  | .both d c => .word d.toWord :: .mark .comma :: c.symbols

/-- The symbols of a declaration. -/
def Declaration.symbols : Declaration → List Symbol
  | .run source => importWord :: source.symbols
  | .imports bindings source => importWord :: (bindings.symbols ++ fromWord :: source.symbols)
  | .exportAll source => exportWord :: .mark .star :: fromWord :: source.symbols
  | .exportAs name source =>
    exportWord :: .mark .star :: asWord :: name.symbol :: fromWord :: source.symbols
  | .exportNames names source => exportWord :: (names.symbols ++ fromWord :: source.symbols)

/-! ### What it says -/

/-- The binding of an element of an import. -/
def Element.binding (e : Element) : Binding := ⟨e.name.value, (e.alias?.getD e.name).value, false⟩

/-- The bindings of a clause. -/
def Clause.bindings : Clause → List Binding
  | .star n => [⟨"*", n.text, false⟩]
  | .names ns => ns.elements.map Element.binding

/-- The binding of a default import. -/
def Identifier.binding (d : Identifier) : Binding := ⟨"default", d.text, false⟩

/-- What an import binds, in its order. -/
def Bindings.bindings : Bindings → List Binding
  | .default d => [d.binding]
  | .clause c => c.bindings
  | .both d c => d.binding :: c.bindings

/-- What a declaration says. -/
def Declaration.form : Declaration → Statement.Form
  | .run source => .imports source.specifier.value [] false
  | .imports bindings source => .imports source.specifier.value bindings.bindings false
  | .exportAll source => .reexportAll source.specifier.value false
  | .exportAs name source => .reexports source.specifier.value [⟨name.value, "*", false⟩] false
  | .exportNames names source =>
    .reexports source.specifier.value (names.elements.map fun e => e.binding.swap) false

end ScriptBundle.Written
