import ScriptBundle.Text.Decimal

/-!
# Error reports

What the user is told about an error: a message and, as far as it is known, the file, line and column
that it is about. Errors of the project are shown in one line that starts with the place; violated
invariants of the build itself are shown as such, with an error code in any case.
-/

namespace ScriptBundle

/-- A message with the place that it is about. -/
structure ErrorReport where
  message : Text
  file? : Option Text := none
  line? : Option Int := none
  column? : Option Int := none

namespace ErrorReport

/-- A line and a column behind a file name; a column is shown only behind a line. -/
def lineAndColumn (line? column? : Option Int) : Text :=
  match line?, column? with
  | none, _ => []
  | some l, none => ":" ++ Text.ofInt l
  | some l, some c => ":" ++ Text.ofInt l ++ ":" ++ Text.ofInt c

/-- The report of an error of the project. -/
def format (r : ErrorReport) : Text :=
  let place : Text :=
    match r.file? with
    | none => []
    | some file => file ++ lineAndColumn r.line? r.column? ++ ": "
  place ++ "error: " ++ r.message

/-- The report of a violated invariant. -/
def formatInternal (r : ErrorReport) : Text :=
  let message : Text :=
    if Text.occursIn "[ICE-" r.message then r.message else "[ICE-9999] " ++ r.message
  let place : Text :=
    match r.file? with
    | some (c :: file) => (c :: file) ++ ": "
    | _ => []
  place ++ "internal bundler error: " ++ message

end ErrorReport

end ScriptBundle
