import ScriptBundle.Statement.Export
import ScriptBundle.Statement.Import
import ScriptBundle.Token.Lexer

/-!
# Scanning for module statements

The scanner walks over the tokens of a source and reads every module statement that stands outside
all brackets and is not the name of a member.

* `Statement.scan`: the module statements of a token stream;
* `moduleStatements`: those of a source, and `moduleEdges`: those that name another module;
* `SyntaxFault`: why a source has none.
-/

namespace ScriptBundle

namespace Statement

/-- The module statement behind the keyword `word`, or `none` if there is none. -/
def readStatement (last word : Token) (ts : List Token) : Except StatementFault Parsed :=
  if word.kind = .importWord then readImport last word ts
  else if word.kind = .exportWord then readExport last word ts
  else .ok none

theorem readStatement_suffix {last word : Token} {ts rest : List Token} {s : Statement}
    (h : readStatement last word ts = .ok (some (s, rest))) : rest <:+ ts := by
  unfold readStatement at h
  split at h
  · exact readImport_suffix h
  · split at h
    · exact readExport_suffix h
    · cases h

/-- The bracket depth behind a token. A closing bracket too many is passed over. -/
def depthAfter (depth : Nat) (t : Token) : Nat :=
  if t.kind.isOpener then depth + 1 else if t.kind.isCloser then depth - 1 else depth

/-- The token of `ts` that stands in front of the suffix `rest`. -/
def tokenBefore (ts rest : List Token) : Option Token :=
  (ts.take (ts.length - rest.length)).getLast?

/-- The module statements of the tokens behind the token `prev`, with `depth` brackets open. -/
def scanFrom (last : Token) (prev : Option Token) (depth : Nat) (ts : List Token) :
    Except StatementFault (List Statement) :=
  match ts with
  | [] => .ok []
  | t :: us =>
    if depth = 0 && !prev.any (·.selectsMember) then
      match _h : readStatement last t us with
      | .error e => .error e
      | .ok (some (s, rest)) =>
        (scanFrom last (tokenBefore (t :: us) rest) 0 rest).map (s :: ·)
      | .ok none => scanFrom last (some t) (depthAfter depth t) us
    else scanFrom last (some t) (depthAfter depth t) us
  termination_by ts.length
  decreasing_by
    · exact Nat.lt_succ_of_le (readStatement_suffix _h).length_le
    · exact Nat.lt_succ_self _
    · exact Nat.lt_succ_self _

/-- One step of the scanner. -/
theorem scanFrom_cons (last : Token) (prev : Option Token) (depth : Nat) (t : Token)
    (us : List Token) :
    scanFrom last prev depth (t :: us) =
      if depth = 0 && !prev.any (·.selectsMember) then
        readStatement last t us >>= fun r =>
          match r with
          | some (s, rest) => (scanFrom last (tokenBefore (t :: us) rest) 0 rest).map (s :: ·)
          | none => scanFrom last (some t) (depthAfter depth t) us
      else scanFrom last (some t) (depthAfter depth t) us := by
  rw [scanFrom]
  split
  · split <;> simp only [*] <;> rfl
  · rfl

/-- The module statements of a token stream, in the order of the source. -/
def scan (ts : TokenStream) : Except StatementFault (List Statement) :=
  scanFrom ts.last none 0 ts.tokens

end Statement

/-- Why a source has no list of module statements: it has no tokens, or a statement is malformed. -/
inductive SyntaxFault
  | lexical (fault : LexicalFault)
  | statement (fault : StatementFault)
  deriving DecidableEq

namespace SyntaxFault

/-- The message for a fault. -/
def message : SyntaxFault → Text
  | .lexical f => f.cause.message
  | .statement f => f.cause.message

/-- The position of a fault. -/
def position : SyntaxFault → Position
  | .lexical f => f.position
  | .statement f => f.place.start

end SyntaxFault

/-- The tokens of a source together with its module statements. -/
def scanSource (source : Text) : Except SyntaxFault (TokenStream × List Statement) :=
  match tokenize source with
  | .error f => .error (.lexical f)
  | .ok ts =>
    match Statement.scan ts with
    | .error f => .error (.statement f)
    | .ok statements => .ok (ts, statements)

/-- The module statements of a source. -/
def moduleStatements (source : Text) : Except SyntaxFault (List Statement) :=
  (scanSource source).map (·.2)

/-- The module statements of a source that name another module. -/
def moduleEdges (source : Text) : Except SyntaxFault (List Statement) :=
  (moduleStatements source).map (·.filter (·.specifier?.isSome))

end ScriptBundle
