import ScriptBundle.CommandLine
import Std.Time.Format

/-!
# The program

`main` runs the command line program on real files. The files of the project are named on standard
input, one on a line; they and the directories above them are all that the program sees. It starts no
processes, so a command that is to check, transpile or run a program counts as one that is not there.

* `loadFile`, `loadMachine`: what the program finds;
* `showText`, `saveFiles`: what it leaves behind.
-/

namespace ScriptBundle

/-- The tree with the file that `name` leads to. A file that cannot be read is there but locked. -/
def loadFile (cwd : Path) (tree : FileTree) (name : String) : IO FileTree := do
  let location := (Path.normalize cwd name).parts
  try
    let bytes ← IO.FS.readBinFile name
    return tree.insertFile location (.file bytes.toList)
  catch _ => return tree.insertFile location (.locked .inputOutput)

/-- The names on the lines of a stream. -/
partial def readNames (input : IO.FS.Stream) (names : Array String) : IO (Array String) := do
  let line ← input.getLine
  if line.isEmpty then return names
  let name := line.trimAscii.toString
  readNames input (if name.isEmpty then names else names.push name)

/-- The value of an environment variable, if it is set. -/
def loadVariable (name : String) : IO (List (Text × Text)) := do
  match ← IO.getEnv name with
  | some value => return [(name, value)]
  | none => return []

/-- What the program finds: the files that standard input names, the environment and the time. -/
def loadMachine : IO Machine := do
  let cwd := Path.ofText (toString (← IO.currentDir))
  let names ← readNames (← IO.getStdin) #[]
  let start := FileTree.empty.insertDirectory cwd.parts
  let tree ← names.foldlM (loadFile cwd) start
  let environment ← ["TSB_CHECK_CMD", "TSB_TRANSPILE_CMD", "TSB_NODE"].mapM loadVariable
  let now ← Std.Time.PlainDateTime.now
  return { workspace := ⟨tree, cwd⟩, environment := environment.flatten, outcomes := []
           clock := now.format "uuuu-MM-dd HH:mm:ss" }

/-- The characters of a text; half a surrogate pair on its own is none. -/
def showText (t : Text) : String := String.ofList (t.filterMap CodePoint.toChar?)

/-- Writes the files of the tree `after` that are not in the tree `before`. -/
def saveFiles (before after : FileTree) : IO Unit := do
  for (location, bytes) in before.filesSince after do
    let path : Path := ⟨.top, location⟩
    IO.FS.writeBinFile (showText path.text) ⟨bytes.toArray⟩

end ScriptBundle

open ScriptBundle in
/-- Runs the program. A failure that the program does not report ends it with status 1. -/
def main (argv : List String) : IO UInt32 := do
  let machine ← loadMachine
  let result := CommandLine.main machine (argv.map Text.ofString)
  saveFiles machine.workspace.tree result.tree
  IO.print (showText result.output)
  IO.eprint (showText result.errors)
  match result.status with
  | .ok status => return UInt32.ofNat (status % 256).toNat
  | .error f =>
    IO.eprintln (showText f.format)
    return 1
