import ScriptBundle.Text.IdentifierPart
import ScriptBundle.Text.IdentifierStart
import ScriptBundle.Token

/-!
# Lexemes

What stands at the head of a source between two tokens: a gap (one white-space code point or one
comment), a whole token, or the first chunk of a template literal up to its first substitution.
`Lexeme.read` tells which, and how far it goes. A slash is the one code point whose meaning depends
on what came before: where an operand may stand it opens a regular expression, elsewhere it divides.
-/

namespace ScriptBundle

/-- What a source can leave unterminated. -/
inductive Unterminated
  | string
  | template
  | regex
  | comment
  deriving DecidableEq

/-- The message for what is unterminated. -/
def Unterminated.message : Unterminated → Text
  | .string => "[LEX-0010] unterminated string literal"
  | .template => "[LEX-0020] unterminated template literal"
  | .regex => "[LEX-0030] unterminated regular expression literal"
  | .comment => "[LEX-0040] unterminated block comment"

/-- What stands at the head of a source between two tokens. -/
inductive Lexeme
  /-- A white-space code point or a comment. -/
  | gap
  /-- A whole token of the given kind. -/
  | token (kind : TokenKind)
  /-- A template literal up to and with the `${` of its first substitution. -/
  | openTemplate
  deriving DecidableEq

namespace Lexeme

/-- White space between tokens. -/
def isSpace (c : CodePoint) : Bool :=
  c ∈ ([' ', '\t', '\r', '\n', '\x0b', '\x0c', '\ufeff', '\u00a0', '\u2028', '\u2029'] :
    List CodePoint)

/-- A line comment runs up to a line feed or a code point zero. -/
def inLineComment (c : CodePoint) : Bool := c ≠ '\n' && c ≠ '\x00'

/-- Whether a word goes on with the code point; a backslash belongs to an escape in the word. -/
def inWord (c : CodePoint) : Bool := c.isIdentifierPart || c = '\\'

/-- The words after which a slash opens a regular expression. -/
def wordsBeforeOperand : List Text :=
  ["return", "typeof", "instanceof", "in", "of", "new", "delete", "void",
    "throw", "case", "do", "else", "yield", "await"]

/-- The operators of several code points, longer ones before their own beginnings. -/
def operators : List Text :=
  [">>>="].map Text.ofString ++
  ["...", "===", "!==", "**=", "<<=", ">>=", ">>>", "&&=", "||=", "??="].map Text.ofString ++
  ["=>", "==", "!=", "<=", ">=", "&&", "||", "??", "?.", "++", "--", "+=", "-=", "*=", "/=", "%=",
    "&=", "|=", "^=", "**", "<<", ">>"].map Text.ofString

/-- The kind of a punctuator of one code point. -/
def punctuatorKind (c : CodePoint) : TokenKind :=
  if c = '{' then .leftBrace
  else if c = '}' then .rightBrace
  else if c = '(' then .leftParen
  else if c = ')' then .rightParen
  else if c = '[' then .leftBracket
  else if c = ']' then .rightBracket
  else if c = ',' then .comma
  else if c = ';' then .semicolon
  else if c = '.' then .dot
  else if c = '*' then .star
  else if c = '=' then .equals
  else if c = ':' then .colon
  else .operator

/-- The kind of a word. -/
def wordKind (w : Text) : TokenKind :=
  if w = "import" then .importWord else if w = "export" then .exportWord else .identifier

/-- Whether a slash behind the token opens a regular expression: not behind an operand. -/
def operandMayFollow (kind : TokenKind) (text : Text) : Bool :=
  match kind with
  | .number | .string | .template | .regex | .rightParen | .rightBracket => false
  | .identifier => text ∈ wordsBeforeOperand
  | .operator => text ≠ "++" && text ≠ "--"
  | _ => true

/-- How far a number goes on behind `prev`. The sign of an exponent belongs to it, which a
hexadecimal number does not have. -/
def numberLength (hexadecimal : Bool) (prev : CodePoint) : Text → Nat
  | [] => 0
  | c :: s =>
    if c.isAlphanumeric || c = '_' || c = '.' then numberLength hexadecimal c s + 1
    else if (c = '+' || c = '-') && (prev = 'e' || prev = 'E') && !hexadecimal then
      numberLength hexadecimal c s + 1
    else 0

/-- How far a string goes on behind its opening quote, the closing one included. A line feed ends no
string unless a backslash stands before it. -/
def stringLength? (quote : CodePoint) : Text → Option Nat
  | [] => none
  | c :: s =>
    if c = '\n' then none
    else if c = '\\' then
      match s with
      | [] => none
      | _ :: s => (stringLength? quote s).map (· + 2)
    else if c = quote then some 1
    else (stringLength? quote s).map (· + 1)

/-- How a chunk of a template literal ends. -/
inductive ChunkEnd
  /-- By the closing backquote. -/
  | closed
  /-- By the `${` of a substitution. -/
  | substitution
  deriving DecidableEq

/-- How far a template literal goes on before it closes or a substitution opens. -/
def chunkLength? : Text → Option (ChunkEnd × Nat)
  | [] => none
  | c :: s =>
    if c = '\\' then
      match s with
      | [] => none
      | _ :: s => (chunkLength? s).map fun (e, n) => (e, n + 2)
    else if c = '`' then some (.closed, 1)
    else if c = '$' && Text.headIs s '{' then some (.substitution, 2)
    else (chunkLength? s).map fun (e, n) => (e, n + 1)

/-- How far the pattern of a regular expression goes on, the closing slash included. A slash inside
a class closes nothing, and a line feed ends no pattern unless a backslash stands before it. -/
def patternLength? (inClass : Bool) : Text → Option Nat
  | [] => none
  | c :: s =>
    if c = '\n' then none
    else if c = '\\' then
      match s with
      | [] => none
      | _ :: s => (patternLength? inClass s).map (· + 2)
    else if c = '[' then (patternLength? true s).map (· + 1)
    else if c = ']' then (patternLength? false s).map (· + 1)
    else if c = '/' && !inClass then some 1
    else (patternLength? inClass s).map (· + 1)

/-- How far a block comment goes on, its closing star and slash included. -/
def commentLength? : Text → Option Nat
  | [] => none
  | c :: s =>
    if c = '*' && Text.headIs s '/' then some 2 else (commentLength? s).map (· + 1)

/-- The kind of the longest punctuator at the head of `c :: s`, and how far it goes on behind `c`. -/
def punctuator (c : CodePoint) (s : Text) : TokenKind × Nat :=
  match operators.find? (·.isPrefixOf (c :: s)) with
  | some op => (.operator, op.length - 1)
  | none => (punctuatorKind c, 0)

/-- The lexeme at the head of `c :: s` and how far it goes on behind `c`. `operand` tells whether an
operand may stand here, so that a slash opens a regular expression. -/
def read (operand : Bool) (c : CodePoint) (s : Text) : Except Unterminated (Lexeme × Nat) :=
  if isSpace c then .ok (gap, 0)
  else if c = '/' && Text.headIs s '/' then
    .ok (gap, 1 + (s.tail.takeWhile inLineComment).length)
  else if c = '/' && Text.headIs s '*' then
    match commentLength? s.tail with
    | some n => .ok (gap, 1 + n)
    | none => .error .comment
  else if c.isIdentifierStart || c = '\\' then
    let rest := s.takeWhile inWord
    .ok (token (wordKind (c :: rest)), rest.length)
  else if c.isDigit || (c = '.' && s.head?.any (·.isDigit)) then
    let hexadecimal := c = '0' && (Text.headIs s 'x' || Text.headIs s 'X')
    .ok (token .number, numberLength hexadecimal c s)
  else if c = '\'' || c = '"' then
    match stringLength? c s with
    | some n => .ok (token .string, n)
    | none => .error .string
  else if c = '`' then
    match chunkLength? s with
    | some (.closed, n) => .ok (token .template, n)
    | some (.substitution, n) => .ok (openTemplate, n)
    | none => .error .template
  else if c = '/' && operand then
    match patternLength? false s with
    | some n => .ok (token .regex, n + ((s.drop n).takeWhile (·.isIdentifierPart)).length)
    | none => .error .regex
  else
    let (kind, n) := punctuator c s
    .ok (token kind, n)

end Lexeme

end ScriptBundle
