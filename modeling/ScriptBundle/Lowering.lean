import ScriptBundle.Log
import ScriptBundle.Text.Alphanumeric
import ScriptBundle.TypeSyntax

/-!
# Lowering module syntax

A module of a bundle runs inside a function with the parameters `require`, `module` and `exports`.
The lowering takes the module statements out of a source and puts a prologue in front of it, on the
same line: getters on `exports` for what the module gives out, then one `require` call for each module
it takes from, in the order of the source. All else stays as it is, on the line where it was.

* `Statement.getters`, `Statement.requires`, `Statement.edits`: what becomes of one statement;
* `applyEdits`: a source with some of its pieces replaced;
* `lower`: a whole source, and `Lowering.transpile`, which refuses typed sources that it cannot lower.
-/

namespace ScriptBundle

namespace Lowering

/-- Whether a name can stand behind a dot: ASCII letter, `_` or `$`, then letters and numbers of any
script, `_` and `$`, and perhaps a line feed at the end. -/
def isPropertyName (name : Text) : Bool :=
  let name := if name.getLast? = some (CodePoint.ofChar '\n') then name.dropLast else name
  match name with
  | c :: s =>
    (c.isAsciiLetter || c = '_' || c = '$') && s.all fun d => d.isAlphanumeric || d = '_' || d = '$'
  | [] => false

/-- The expression that reads a property of `object`. -/
def member (object name : Text) : Text :=
  if isPropertyName name then object ++ "." ++ name
  else object ++ "[" ++ StringLiteral.encode name ++ "]"

/-- The statement that defines a getter on the exports. -/
def getter (exported expression : Text) : Text :=
  "Object.defineProperty(exports, " ++ StringLiteral.encode exported ++
    ", \x7b enumerable: true, get: function () \x7b return " ++ expression ++ "; \x7d \x7d);"

/-- The call that runs a module. -/
def requireCall (specifier : Text) : Text := "require(" ++ StringLiteral.encode specifier ++ ")"

/-- The declaration of a variable. -/
def varStatement (name value : Text) : Text := "var " ++ name ++ " = " ++ value ++ ";"

/-- The variable that holds the exports of the module named by statement `index`. -/
def moduleVariable (index : Nat) : Text := "__tsb_m" ++ Text.ofNat index

/-- The mark of a module that had module syntax. -/
def esModuleMark : Text := "Object.defineProperty(exports, \"__esModule\", \x7b value: true \x7d);"

/-- The function that passes on all exports of a module but its default one. -/
def exportStarHelper : Text :=
  Text.ofString "function __tsb_export_star(m) \x7b Object.keys(m).forEach(function (k) \x7b " ++
    Text.ofString "if (k !== \"default\" && !Object.prototype.hasOwnProperty.call(exports, k)) " ++
    Text.ofString "Object.defineProperty(exports, k, \x7b enumerable: true, " ++
    Text.ofString "get: function () \x7b return m[k]; \x7d \x7d); \x7d); \x7d"

/-- A piece of a source and what takes its place. -/
structure Edit where
  start : Nat
  stop : Nat
  replacement : Text
  deriving DecidableEq

/-- The rest `s` of a source, which starts at the offset `pos`, with pieces replaced. The edits are
given in the order of the source and do not overlap. -/
def applyEdits (pos : Nat) (s : Text) : List Edit → Text
  | [] => s
  | e :: es =>
    s.take (e.start - pos) ++ e.replacement ++ applyEdits e.stop (s.drop (e.stop - pos)) es

/-- The piece of a source between two offsets. -/
def slice (source : Text) (start stop : Nat) : Text := (source.drop start).take (stop - start)

/-- The variable of one import binding; `object` holds the exports of its module. -/
def bindingVariable (object : Text) (b : Binding) : Text :=
  if b.outer = "*" then varStatement b.inner object
  else if b.outer = "default" then
    varStatement b.inner (object ++ " && " ++ object ++ ".__esModule ? " ++ object ++ ".default : " ++
      object)
  else varStatement b.inner (member object b.outer)

/-- The expression that reads the name behind a re-exported binding. -/
def readBinding (object : Text) (b : Binding) : Text :=
  if b.inner = "*" then object else member object b.inner

/-- The statements of an import. Nothing is left of one that names types only. -/
def importStatements (object specifier : Text) (bindings : List Binding) (typeOnly : Bool) :
    List Text :=
  if typeOnly then []
  else
    match bindings, bindings.filter (!·.typeOnly) with
    | [], _ => [requireCall specifier ++ ";"]
    | _, [] => []
    | _, [b] =>
      if b.outer = "*" then [varStatement b.inner (requireCall specifier)]
      else [varStatement object (requireCall specifier), bindingVariable object b]
    | _, bs => varStatement object (requireCall specifier) :: bs.map (bindingVariable object)

end Lowering

open Lowering

namespace Statement

/-- The getters that a statement puts on the exports; `object` holds the exports of the module that
it names. -/
def getters (object : Text) (s : Statement) : List Text :=
  match s.form with
  | .imports .. | .reexportAll .. | .default none => []
  | .reexports _ bindings typeOnly =>
    if typeOnly then []
    else (bindings.filter (!·.typeOnly)).map fun b =>
      getter b.outer (readBinding object b)
  | .exportList bindings _ =>
    (bindings.filter (!·.typeOnly)).map fun b => getter b.outer b.inner
  | .declaration bindings .. => bindings.map fun b => getter b.outer b.inner
  | .default (some name) => [getter "default" name]

/-- The statements that run the module that a statement names. -/
def requires (object : Text) (s : Statement) : List Text :=
  match s.form with
  | .imports specifier bindings typeOnly => importStatements object specifier bindings typeOnly
  | .reexportAll specifier typeOnly =>
    if typeOnly then [] else ["__tsb_export_star(" ++ requireCall specifier ++ ");"]
  | .reexports specifier _ typeOnly =>
    if typeOnly then [] else [varStatement object (requireCall specifier)]
  | _ => []

/-- Whether a statement passes on all exports of a module. -/
def exportsAll (s : Statement) : Bool :=
  match s.form with
  | .reexportAll _ typeOnly => !typeOnly
  | _ => false

/-- What becomes of the place of a statement in its source. A statement that goes leaves its line
feeds; in front of a declaration only the keyword goes, and `let` and `const` become `var`, so that a
getter that is read early finds the variable. -/
def edits (source : Text) (s : Statement) : List Edit :=
  match s.form with
  | .declaration _ _ blockScoped =>
    ⟨s.start.offset, s.stop, []⟩ ::
      blockScoped.toList.map fun t => ⟨t.start.offset, t.stop, "var"⟩
  | .default (some _) => [⟨s.start.offset, s.stop, []⟩]
  | .default none => [⟨s.start.offset, s.stop, "exports.default ="⟩]
  | _ =>
    let breaks := Text.lineFeeds (slice source s.start.offset s.stop)
    [⟨s.start.offset, s.stop, List.replicate breaks '\n'⟩]

end Statement

namespace Lowering

/-- The prologue of a module: its mark, its getters, and its requires. -/
def prologue (statements : List Statement) : List Text :=
  let numbered := statements.zipIdx
  [esModuleMark] ++
    (if statements.any (·.exportsAll) then [exportStarHelper] else []) ++
    numbered.flatMap (fun (s, n) => s.getters (moduleVariable n)) ++
    numbered.flatMap (fun (s, n) => s.requires (moduleVariable n))

/-- A source whose hashbang line, if it has one, is a comment. -/
def hideHashbang (source : Text) : Text :=
  if (Text.ofString "#!").isPrefixOf source then "//" ++ source.drop 2 else source

/-- The source of a module without the given module statements, behind the prologue that stands for
them. -/
def lower (source : Text) (statements : List Statement) : Text :=
  let source := hideHashbang source
  if statements.isEmpty then source
  else
    Text.join " " (prologue statements) ++ " " ++
      applyEdits 0 source (statements.flatMap (·.edits source))

/-- Lowers the source of the module in `file`. A typed source that holds type syntax is refused. -/
def transpile (file source : Text) : Logged Text := do
  match scanSource source with
  | .error f => Logged.fail (.malformedSource file f)
  | .ok (tokens, statements) =>
    match if isTypedFile file then findTypeSyntax tokens statements else none with
    | some t => Logged.fail (.typeSyntax file t)
    | none =>
      if !statements.isEmpty then
        Logged.log (Log.debug ("Lowered " ++ Text.ofNat statements.length ++
          " module statement(s) in " ++ file))
      return lower source statements

end Lowering

end ScriptBundle
