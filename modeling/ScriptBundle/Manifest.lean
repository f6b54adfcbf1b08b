import ScriptBundle.Json.Parser
import ScriptBundle.Log

/-!
# Package manifests

A package may name its entry file in a manifest: the member `module` of a JSON object, or `main` when
`module` is missing or says nothing. An entry that is no string is ignored, with a warning.
-/

namespace ScriptBundle

/-- The directories and files that a build sees, and the directory in which it runs. -/
structure Workspace where
  tree : FileTree
  cwd : Path

namespace Manifest

/-- The value that a manifest gives for the entry file. -/
def entryValue (members : List (Text × Json)) : Option Json :=
  match members.lookup (Text.ofString "module") with
  | some v => if v.isTruthy then some v else members.lookup (Text.ofString "main")
  | none => members.lookup (Text.ofString "main")

/-- The entry file that the manifest at `path` names, with the members `members`. -/
def entryOf (path : Path) (members : List (Text × Json)) : Logged (Option Text) :=
  match entryValue members with
  | none | some .null => pure none
  | some (.string []) => pure none
  | some (.string entry) => pure (some entry)
  | some v => do
    Logged.log (Log.warning (path.text ++ ": ignoring non-string package entry " ++ v.display))
    return none

/-- The members of the manifest at `path`. -/
def read (ws : Workspace) (path : Path) : Except Failure (List (Text × Json)) :=
  match ws.tree.readText ws.cwd path with
  | .error (.path f) => .error (.malformedManifest path (.path f))
  | .error (.failed (.system e)) => .error (.unreadableManifest path e)
  | .error (.failed (.encoding f)) => .error (.malformedManifest path (.encoding f))
  | .ok source =>
    match Json.parse source with
    | .error f => .error (.malformedManifest path (.json (f.message source)))
    | .ok (.object members) => .ok members
    | .ok _ => .error (.malformedManifest path .notAnObject)

/-- The entry file that the manifest at `path` names. -/
def entry (ws : Workspace) (path : Path) : Logged (Option Text) := do
  entryOf path (← Logged.ofExcept (read ws path))

end Manifest

end ScriptBundle
