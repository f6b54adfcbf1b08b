import ScriptBundle.Statement

/-!
# Groups and expressions inside statements

The scanner looks only at module statements, so it drops the groups, initializers and types inside
them. Each of these functions returns what is left of the tokens, and what is left is a suffix of what
was given.

* `dropGroup`: a bracketed group;
* `dropExpression`: an expression or a type.
-/

namespace ScriptBundle.Statement

/-- Passes over the rest of a bracketed group in which `depth` brackets are open. Returns the closing
bracket and what follows it. -/
def dropGroup (depth : Nat) : List Token → Option (Token × List Token)
  | [] => none
  | t :: ts =>
    if t.kind.isOpener then dropGroup (depth + 1) ts
    else if t.kind.isCloser then
      if depth ≤ 1 then some (t, ts) else dropGroup (depth - 1) ts
    else dropGroup depth ts

theorem dropGroup_suffix {depth : Nat} {ts r : List Token} {t : Token}
    (h : dropGroup depth ts = some (t, r)) : t :: r <:+ ts := by
  induction ts generalizing depth with
  | nil => simp [dropGroup] at h
  | cons u us ih =>
    unfold dropGroup at h
    repeat' split at h
    · exact (ih h).trans (List.suffix_cons u us)
    · cases h
      exact List.suffix_refl _
    · exact (ih h).trans (List.suffix_cons u us)
    · exact (ih h).trans (List.suffix_cons u us)

/-- The words that start a statement of their own on a new line. -/
def statementWords : List Text :=
  ["const", "let", "var", "function", "class", "if", "for", "while", "do",
    "return", "throw", "try", "switch", "async", "await"]

/-- Whether `t`, on a later line than the token `prev` before it, starts a statement of its own. An
operator, a comma, a dot or a colon asks for more of the expression. -/
def startsStatement (prev t : Token) : Bool :=
  match prev.kind with
  | .operator | .equals | .comma | .dot | .colon => false
  | _ =>
    match t.kind with
    | .importWord | .exportWord => true
    | .identifier => t.text ∈ statementWords
    | _ => false

/-- Whether an expression ends in front of the token `t`, outside every bracket of the expression:
at a token where it is to `stop`, at a bracket that it did not open, or at a line break before a new
statement. -/
def endsExpression (stop : TokenKind → Bool) (prev t : Token) : Bool :=
  stop t.kind || t.kind.isCloser || (prev.line < t.line && startsStatement prev t)

/-- By how much a token changes the bracket depth of an expression. In a type the angle brackets of
its arguments count too. -/
def nesting (inType : Bool) (t : Token) : Int :=
  if t.kind.isOpener || (inType && t.text = "<") then 1
  else if t.kind.isCloser || (inType && t.text = ">") then -1
  else if inType && t.text = ">>" then -2
  else 0

/-- Passes over an expression, or over a type, behind the token `prev`, with `depth` brackets open. -/
def dropExpression (stop : TokenKind → Bool) (inType : Bool) (prev : Token) (depth : Int) :
    List Token → List Token
  | [] => []
  | t :: ts =>
    if depth = 0 && endsExpression stop prev t then t :: ts
    else dropExpression stop inType t (depth + nesting inType t) ts

theorem dropExpression_suffix (stop : TokenKind → Bool) (inType : Bool) (prev : Token)
    (depth : Int) (ts : List Token) : dropExpression stop inType prev depth ts <:+ ts := by
  induction ts generalizing prev depth with
  | nil => exact List.suffix_refl _
  | cons t ts ih =>
    unfold dropExpression
    split
    · exact List.suffix_refl _
    · exact (ih _ _).trans (List.suffix_cons t ts)

end ScriptBundle.Statement
