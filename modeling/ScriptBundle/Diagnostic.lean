import ScriptBundle.ErrorReport
import ScriptBundle.Path

/-!
# Diagnostics

What a type checker says about a program: a kind (`error` or `warning`), a message and, as far as the
checker tells, a code and a place.
-/

namespace ScriptBundle

/-- One statement of a type checker about a program. -/
structure Diagnostic where
  kind : Text
  message : Text
  file? : Option Text := none
  code? : Option Text := none
  line? : Option Int := none
  column? : Option Int := none
  deriving DecidableEq

namespace Diagnostic

/-- A diagnostic in one line, with the absolute name of its file in the working directory `cwd`. -/
def header (cwd : Path) (d : Diagnostic) : Text :=
  let file : Text :=
    match d.file? with
    | none => []
    | some f => (Path.normalize cwd f).text
  let place := file ++ ErrorReport.lineAndColumn d.line? d.column?
  let place : Text := if place.isEmpty then [] else place ++ ": "
  let code : Text :=
    match d.code? with
    | some (c :: cs) => (c :: cs) ++ ": "
    | _ => []
  place ++ d.kind ++ ": " ++ code ++ d.message

end Diagnostic

end ScriptBundle
