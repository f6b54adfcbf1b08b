import ScriptBundle.Log
import ScriptBundle.Manifest

/-!
# Snippets

A diagnostic with a place is shown with the line that it is about and a caret under the column, as far
as the line can be read. It fails behind the diagnostic itself if the system cannot be asked for the
file.
-/

namespace ScriptBundle.Snippet

/-- The lines of the file that a text names; there are none if the file cannot be read. -/
def fileLines (ws : Workspace) (file : Text) : Except PathFault (List Text) :=
  match ws.tree.readText ws.cwd (Path.ofText file) with
  | .ok source => .ok (Text.boundaryLines source)
  | .error (.failed _) => .ok []
  | .error (.path f) => .error f

/-- The line with the number `n`, counted from one. -/
def lineAt? (lines : List Text) (n : Int) : Option Text := if n < 1 then none else lines[(n - 1).toNat]?

/-- The number of columns for the line number `n`. -/
def gutterWidth (n : Int) : Nat := max 5 (Text.ofInt n).length

/-- A source line behind its number. -/
def numbered (n : Int) (line : Text) : Text :=
  Text.padLeft (gutterWidth n) (Text.ofInt n) ++ " | " ++ line

/-- The caret under a column of the line with the number `n`; a column before the first is the first. -/
def caret (n column : Int) : Text :=
  Text.padLeft (gutterWidth n) [] ++ " | " ++
    Text.padLeft ((max 1 column).toNat - 1) [] ++ "^"

/-- The lines of the snippet for the line number `n` of a file with the lines `source`. -/
def linesAt (source : List Text) (n : Int) (column? : Option Int) : List Text :=
  match lineAt? source n with
  | none => []
  | some line => numbered n line :: (column?.map (caret n)).toList

/-- The lines of the snippet of a diagnostic. -/
def lines (ws : Workspace) (d : Diagnostic) : Except PathFault (List Text) :=
  match d.file?, d.line? with
  | some (c :: file), some n => (fileLines ws (c :: file)).map (linesAt · n d.column?)
  | _, _ => .ok []

/-- Logs a diagnostic and its snippet. -/
def log (ws : Workspace) (d : Diagnostic) : Logged Unit := do
  Logged.log (Log.error (d.header ws.cwd))
  let snippet ← Logged.ofExcept ((lines ws d).mapError .invalidPath)
  Logged.logAll (snippet.map Log.error)

/-- Logs diagnostics and their snippets. -/
def logAll (ws : Workspace) (ds : List Diagnostic) : Logged Unit := ds.forM (log ws)

end ScriptBundle.Snippet
