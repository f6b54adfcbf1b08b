import ScriptBundle.Position
import ScriptBundle.Text.Quoted

/-!
# Tokens

A token is a piece of a source with its kind and the position where it starts; the text of a token
is exactly the piece, quotes and escapes included. Module syntax needs only a few kinds of its own:
every operator without a role in it is of the kind `operator`, and every word other than `import`
and `export` is an `identifier`.
-/

namespace ScriptBundle

/-- The kinds of tokens. -/
inductive TokenKind
  | endOfFile
  | identifier
  | number
  | string
  | template
  | regex
  | importWord
  | exportWord
  | leftBrace
  | rightBrace
  | leftParen
  | rightParen
  | leftBracket
  | rightBracket
  | comma
  | semicolon
  | dot
  | star
  | equals
  | colon
  | operator
  deriving DecidableEq

namespace TokenKind

/-- The brackets that open a group. -/
def isOpener : TokenKind → Bool
  | .leftBrace | .leftParen | .leftBracket => true
  | _ => false

/-- The brackets that close a group. -/
def isCloser : TokenKind → Bool
  | .rightBrace | .rightParen | .rightBracket => true
  | _ => false

end TokenKind

/-- A piece of a source. -/
@[ext]
structure Token where
  kind : TokenKind
  text : Text
  start : Position
  deriving DecidableEq

namespace Token

/-- The token that stands behind the last one of a source. -/
def endOfFile (p : Position) : Token := ⟨.endOfFile, [], p⟩

/-- The offset behind the token. -/
def stop (t : Token) : Nat := t.start.offset + t.text.length

/-- The line on which the token starts. -/
def line (t : Token) : Nat := t.start.line

/-- Whether the token is the given word and no keyword of module syntax. -/
def isWord (t : Token) (w : Text) : Bool := t.kind = .identifier && t.text = w

/-- Whether the token is the given operator. -/
def isOperator (t : Token) (op : Text) : Bool := t.kind = .operator && t.text = op

/-- Whether the token is one of the two that select a member of the value before them. -/
def selectsMember (t : Token) : Bool := t.kind = .dot || t.text = "?."

/-- A token as messages show it. -/
def quoted (t : Token) : Text := if t.kind = .endOfFile then "end-of-file" else t.text.quoted

end Token

/-- The tokens of a source, and the position where the source ends. -/
structure TokenStream where
  tokens : List Token
  finish : Position
  deriving DecidableEq

namespace TokenStream

/-- The token behind the last one. -/
def last (ts : TokenStream) : Token := .endOfFile ts.finish

/-- All tokens, the one at the end of the source included. -/
def toList (ts : TokenStream) : List Token := ts.tokens ++ [ts.last]

/-- The stream with one more token in front. -/
def cons? (t : Option Token) (ts : TokenStream) : TokenStream :=
  { ts with tokens := t.toList ++ ts.tokens }

end TokenStream

end ScriptBundle
