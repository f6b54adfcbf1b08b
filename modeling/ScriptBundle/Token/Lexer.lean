import ScriptBundle.Token.Lexeme

/-!
# From a source to its tokens

The lexer takes lexemes off a source until the source ends. A template literal with substitutions is
one token, so what stands inside a substitution is read but not kept: `Frame`s remember the literals
that are still open, innermost first, and how many braces are open in the substitution of each.

* `Lexer.step` reads one lexeme;
* `Lexer.run` repeats it up to the end of the source;
* `tokenize` starts behind a hashbang line.
-/

namespace ScriptBundle

/-- A lexical error: what is unterminated, and where it starts. -/
structure LexicalFault where
  cause : Unterminated
  position : Position
  deriving DecidableEq

namespace Lexer

/-- A template literal inside one of its substitutions: where it starts, the source from there on,
and the number of braces that are open in the substitution. -/
structure Frame where
  start : Position
  source : Text
  depth : Nat

/-- Where the lexer stands: whether an operand may follow, and the open template literals, innermost
first. -/
structure State where
  operand : Bool
  frames : List Frame

/-- Outside every template literal, with an operand to follow. -/
def State.initial : State := ⟨true, []⟩

/-- The frames behind a token: a brace changes the depth of the innermost one. -/
def braced (kind : TokenKind) : List Frame → List Frame
  | [] => []
  | f :: fs =>
    match kind with
    | .leftBrace => { f with depth := f.depth + 1 } :: fs
    | .rightBrace => { f with depth := f.depth - 1 } :: fs
    | _ => f :: fs

/-- The state behind a token. -/
def State.afterToken (st : State) (kind : TokenKind) (text : Text) : State :=
  ⟨Lexeme.operandMayFollow kind text, braced kind st.frames⟩

/-- A token is kept only outside every template literal. -/
def State.keep (st : State) (t : Token) : Option Token :=
  if st.frames.isEmpty then some t else none

/-- One lexeme that has been read: how far it goes on behind its first code point, the state behind
it, and the token to keep, if there is one. -/
structure Step where
  length : Nat
  state : State
  token? : Option Token

/-- Goes on with the template literal `f` behind the brace that closes one of its substitutions. -/
def resume (f : Frame) (fs : List Frame) (p : Position) (s : Text) : Except LexicalFault Step :=
  match Lexeme.chunkLength? s with
  | none => .error ⟨.template, f.start⟩
  | some (.substitution, n) => .ok ⟨n, ⟨true, f :: fs⟩, none⟩
  | some (.closed, n) =>
    let text := f.source.take (p.offset + 1 + n - f.start.offset)
    .ok ⟨n, ⟨false, fs⟩, State.keep ⟨false, fs⟩ ⟨.template, text, f.start⟩⟩

/-- Reads the lexeme at the head of `c :: s`, which stands at the position `p`. -/
def readLexeme (st : State) (p : Position) (c : CodePoint) (s : Text) :
    Except LexicalFault Step :=
  match Lexeme.read st.operand c s with
  | .error cause => .error ⟨cause, p⟩
  | .ok (.gap, n) => .ok ⟨n, st, none⟩
  | .ok (.openTemplate, n) => .ok ⟨n, ⟨true, ⟨p, c :: s, 0⟩ :: st.frames⟩, none⟩
  | .ok (.token kind, n) =>
    let text := c :: s.take n
    .ok ⟨n, st.afterToken kind text, st.keep ⟨kind, text, p⟩⟩

/-- Reads on from the head of `c :: s`, which stands at the position `p`. -/
def step (st : State) (p : Position) (c : CodePoint) (s : Text) : Except LexicalFault Step :=
  match st.frames with
  | f :: fs => if c = '}' && f.depth = 0 then resume f fs p s else readLexeme st p c s
  | [] => readLexeme st p c s

/-- The tokens from the position `p` up to the end of the source. -/
def run (st : State) (p : Position) : Text → Except LexicalFault TokenStream
  | [] =>
    match st.frames with
    | [] => .ok ⟨[], p⟩
    | f :: _ => .error ⟨.template, f.start⟩
  | c :: s =>
    match step st p c s with
    | .error e => .error e
    | .ok r =>
      (run r.state (p.after (c :: s.take r.length)) (s.drop r.length)).map (.cons? r.token?)
  termination_by s => s.length

end Lexer

/-- The hashbang line at the beginning of a source, without its line feed. -/
def hashbang (s : Text) : Text :=
  if (Text.ofString "#!").isPrefixOf s then s.takeWhile Lexeme.inLineComment else []

/-- The tokens of a source. -/
def tokenize (s : Text) : Except LexicalFault TokenStream :=
  let line := hashbang s
  Lexer.run .initial (Position.start.after line) (s.drop line.length)

end ScriptBundle
