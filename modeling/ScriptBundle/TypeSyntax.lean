import ScriptBundle.Statement.Scanner

/-!
# Type syntax

A module that is named as typed may still be plain script. `findTypeSyntax` looks for the first token
that only a type can explain, outside the statements that a lowering removes anyway: annotations of
bindings, parameters and results, optional parameters, `as` and `satisfies`, declarations of types,
and access modifiers. A colon is explained without types when a `?`, a `case` or a `default` before
it in the same bracketed group still waits for one.
-/

namespace ScriptBundle

/-- Whether the name of a file says that its source is typed. -/
def isTypedFile (file : Text) : Bool :=
  [Text.ofString ".ts", Text.ofString ".tsx", Text.ofString ".mts", Text.ofString ".cts"].any
    fun ext => ext.isSuffixOf file

namespace TypeSyntax

/-- The words that only a type system puts in front of a name. -/
def reservedWords : List Text := ["implements", "interface", "private", "protected", "public"]

/-- The words that introduce bindings. -/
def bindingWords : List Text := ["const", "let", "var"]

/-- A bracketed group: the bracket that opened it, and how many `?` and `case` in it wait for their
colon. -/
structure Group where
  opener : Option TokenKind
  waiting : Nat
  deriving DecidableEq

/-- What the tokens so far say about the next one: the group it stands in, the groups around that,
and the two tokens before it. -/
structure Context where
  group : Group
  outer : List Group
  prev : Option Token
  beforePrev : Option Token

namespace Context

/-- In front of the first token. -/
def initial : Context := ⟨⟨none, 0⟩, [], none, none⟩

/-- Whether the next token names a member. -/
def inMember (c : Context) : Bool := c.prev.any (·.selectsMember)

/-- Whether the token `t` may start a statement. -/
def startsStatement (c : Context) (t : Token) : Bool :=
  c.prev.all fun p =>
    p.line < t.line || p.kind = .semicolon || p.kind = .leftBrace || p.kind = .rightBrace ||
      p.kind = .exportWord

/-- Whether the token `t` is a word that waits for a colon. -/
def awaitsColon (c : Context) (t next : Token) : Bool :=
  !c.inMember && (t.isWord "case" || (t.isWord "default" && next.kind = .colon))

/-- The context behind the token `t`. -/
def after (c : Context) (t next : Token) : Context :=
  let c' : Context := { c with prev := some t, beforePrev := c.prev }
  if t.kind.isOpener then { c' with group := ⟨some t.kind, 0⟩, outer := c.group :: c.outer }
  else if t.kind.isCloser then
    match c.outer with
    | [] => c'
    | g :: gs => { c' with group := g, outer := gs }
  else if t.kind = .semicolon then { c' with group := { c.group with waiting := 0 } }
  else if t.kind = .colon then
    { c' with group := { c.group with waiting := c.group.waiting - 1 } }
  else if t.isOperator "?" || c.awaitsColon t next then
    { c' with group := { c.group with waiting := c.group.waiting + 1 } }
  else c'

end Context

/-- A colon with no `?` or `case` waiting for it annotates a parameter, a result or a binding. -/
def annotates (c : Context) : Bool :=
  c.group.waiting = 0 &&
    (c.group.opener = some .leftParen || c.prev.any (·.kind = .rightParen) ||
      (c.prev.any (·.kind = .identifier) && c.beforePrev.any (·.text ∈ bindingWords)))

/-- A `?` directly in front of a colon, a comma or a closing parenthesis makes a parameter optional. -/
def marksOptional (next : Token) : Bool :=
  next.kind = .colon || next.kind = .rightParen || next.kind = .comma

/-- A reserved word in front of a name on its line, `in`, `instanceof` and `of` excepted. -/
def isModifier (t next : Token) : Bool :=
  t.text ∈ reservedWords && next.kind = .identifier && next.line = t.line &&
    next.text ≠ "in" && next.text ≠ "instanceof" && next.text ≠ "of"

/-- Whether a token ends an operand that a type may be asserted of. -/
def endsOperand (p : Token) : Bool :=
  (p.kind = .identifier || p.kind = .rightParen || p.kind = .rightBracket || p.kind = .string ||
      p.kind = .number) &&
    p.text ∉ bindingWords && p.text ∉ Lexeme.wordsBeforeOperand

/-- `as` or `satisfies` between an operand and a type on the same line. -/
def isAssertion (c : Context) (t next : Token) : Bool :=
  (t.text = "as" || t.text = "satisfies") && c.prev.any (fun p => p.line = t.line && endsOperand p) &&
    (next.kind = .identifier || next.kind = .leftBrace || next.kind = .leftBracket) &&
    next.line = t.line

/-- A declaration of a type or of a namespace at the start of a statement. -/
def isTypeDeclaration (c : Context) (t next afterNext : Token) : Bool :=
  c.startsStatement t && next.line = t.line && next.kind = .identifier &&
    ((t.text = "type" && (afterNext.kind = .equals || afterNext.text = "<")) ||
      t.text = "enum" || t.text = "declare" ||
      ((t.text = "namespace" || t.text = "module") &&
        (afterNext.kind = .leftBrace || afterNext.kind = .dot)) ||
      (t.text = "abstract" && next.text = "class"))

/-- Whether only a type explains the token `t`; `next` and `afterNext` are the two tokens behind it. -/
def isTypeSyntax (c : Context) (t next afterNext : Token) : Bool :=
  match t.kind with
  | .operator => t.text = "?" && marksOptional next
  | .colon => annotates c
  | .identifier =>
    !c.inMember &&
      (isModifier t next || isAssertion c t next || isTypeDeclaration c t next afterNext)
  | _ => false

/-- The first token of type syntax in the context `c`, outside the statements `removed`. -/
def findFrom (last : Token) (removed : List Statement) (c : Context) : List Token → Option Token
  | [] => none
  | t :: ts =>
    let removed := removed.dropWhile (·.stop ≤ t.start.offset)
    if removed.head?.any (·.start.offset ≤ t.start.offset) then findFrom last removed c ts
    else
      let next := ts.headD last
      if isTypeSyntax c t next (ts.tail.headD last) then some t
      else findFrom last removed (c.after t next) ts

end TypeSyntax

/-- The first token of type syntax outside the statements that a lowering removes. -/
def findTypeSyntax (ts : TokenStream) (statements : List Statement) : Option Token :=
  TypeSyntax.findFrom ts.last (statements.filter (·.isWhole)) .initial ts.tokens

end ScriptBundle
