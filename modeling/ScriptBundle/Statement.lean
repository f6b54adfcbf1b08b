import ScriptBundle.StringLiteral
import ScriptBundle.Token

/-!
# Module statements

The statements by which a module names other modules or gives out its own bindings: imports,
re-exports, export lists, exported declarations and default exports. A statement knows the piece of
the source that it covers; of a declaration or a default export that is only the words in front,
since the rest stays in the module.

* `Binding`, `Statement.Form`, `Statement`;
* `Statement.specifier?`: the module that a statement names;
* `StatementFault`: why a source has no list of module statements.
-/

namespace ScriptBundle

/-- A name that crosses a module boundary. Of an import, `outer` is the name in the module that it
comes from (`default`, or `*` for all of them) and `inner` the name bound here; of an export,
`outer` is the exported name and `inner` the name it is read from. -/
@[ext]
structure Binding where
  outer : Text
  inner : Text
  typeOnly : Bool
  deriving DecidableEq

namespace Binding

/-- A binding of a value to its own name. -/
def same (name : Text) : Binding := ⟨name, name, false⟩

/-- The binding seen from the other side of the module boundary. -/
def swap (b : Binding) : Binding := { b with outer := b.inner, inner := b.outer }

end Binding

namespace Statement

/-- What a module statement says. -/
inductive Form
  /-- `import … from "specifier"` and `import "specifier"`. -/
  | imports (specifier : Text) (bindings : List Binding) (typeOnly : Bool)
  /-- `export * from "specifier"`. -/
  | reexportAll (specifier : Text) (typeOnly : Bool)
  /-- `export * as name from "specifier"` and `export { … } from "specifier"`. -/
  | reexports (specifier : Text) (bindings : List Binding) (typeOnly : Bool)
  /-- `export { … }`. -/
  | exportList (bindings : List Binding) (typeOnly : Bool)
  /-- `export` in front of a declaration. `blockScoped` is its `let` or `const`. -/
  | declaration (bindings : List Binding) (typeOnly : Bool) (blockScoped : Option Token)
  /-- `export default`, in front of a declaration with the given name or of anything else. -/
  | default (name : Option Text)
  deriving DecidableEq

end Statement

/-- A module statement: its place in the source, and what it says. -/
structure Statement where
  start : Position
  stop : Nat
  form : Statement.Form
  deriving DecidableEq

namespace Statement

/-- The module that a statement names. -/
def specifier? (s : Statement) : Option Text :=
  match s.form with
  | .imports specifier .. | .reexportAll specifier _ | .reexports specifier .. => some specifier
  | _ => none

/-- The names that cross the module boundary. -/
def bindings (s : Statement) : List Binding :=
  match s.form with
  | .imports _ bs _ | .reexports _ bs _ | .exportList bs _ | .declaration bs .. => bs
  | .reexportAll .. | .default _ => []

/-- Whether the whole statement is about types. -/
def typeOnly (s : Statement) : Bool :=
  match s.form with
  | .imports _ _ t | .reexportAll _ t | .reexports _ _ t | .exportList _ t | .declaration _ t _ => t
  | .default _ => false

/-- The offset behind the `export`, or the `export default`, that starts a statement. -/
def exportStop? (s : Statement) : Option Nat :=
  match s.form with
  | .imports .. => none
  | .default _ => some s.stop
  | _ => some (s.start.offset + (Text.ofString "export").length)

/-- Whether nothing of the statement stays in the module. -/
def isWhole (s : Statement) : Bool :=
  match s.form with
  | .declaration .. | .default _ => false
  | _ => true

end Statement

/-- Why a source has no list of module statements. -/
inductive StatementFault.Cause
  /-- Something other than a string literal in the place of a specifier. -/
  | specifierExpected (found : Token)
  /-- A string literal without a value. -/
  | invalidEscape (literal : Text) (fault : EscapeFault)
  /-- `import *` without `as`. -/
  | namespaceNameExpected
  /-- An import without `from`. -/
  | importSourceExpected
  /-- `export *` without `from`. -/
  | exportSourceExpected
  /-- A list of names without its closing brace. -/
  | unclosedNames
  /-- A token that has no place in a list of names. -/
  | unexpected (found : Token)
  /-- A token that starts no binding pattern. -/
  | patternExpected (found : Token)
  /-- A binding pattern without its closing bracket. -/
  | unclosedPattern
  /-- A bracketed group without its closing bracket. -/
  | unclosedGroup
  deriving DecidableEq

/-- A fault in a module statement, and the token that shows its place. -/
structure StatementFault where
  cause : StatementFault.Cause
  place : Token
  deriving DecidableEq

namespace StatementFault

/-- The message for a cause. -/
def Cause.message : Cause → Text
  | .specifierExpected t => "[IMP-0010] module specifier must be a string literal, got " ++ t.quoted
  | .invalidEscape literal fault =>
    "[IMP-0011] invalid escape in string literal " ++ literal ++ ": " ++ fault.code
  | .namespaceNameExpected => "[IMP-0020] malformed import declaration: expected 'as' after '*'"
  | .importSourceExpected => "[IMP-0020] malformed import declaration: expected 'from'"
  | .exportSourceExpected => "[IMP-0020] malformed export declaration: expected 'from'"
  | .unclosedNames => "[IMP-0020] unterminated '\x7b' in module statement"
  | .unexpected t => "[IMP-0020] unexpected " ++ t.quoted ++ " in module statement"
  | .patternExpected t => "[IMP-0030] unsupported binding pattern at " ++ t.quoted
  | .unclosedPattern => "[IMP-0030] unterminated binding pattern"
  | .unclosedGroup => "[IMP-0030] unbalanced brackets in module statement"

end StatementFault

end ScriptBundle
