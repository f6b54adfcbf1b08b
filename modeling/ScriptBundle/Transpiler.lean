import ScriptBundle.Lowering
import ScriptBundle.Session
import ScriptBundle.Text.Blank
import ScriptBundle.Words

/-!
# Transpilers

A transpiler turns the source of a module into its body. The lowering does so for plain script; for
anything else there is an external command, which reads the source and writes the body.
-/

namespace ScriptBundle

/-- How a source becomes a body. -/
inductive Transpiler
  /-- By the lowering of module syntax. -/
  | lowering
  /-- By a command. -/
  | command (words : List Text)

namespace Transpiler

/-- The transpiler that a command text stands for. -/
def ofCommand (command : Text) : Except Failure Transpiler := (Words.split command).map .command

/-- The words of a command for one file: `{file}` in a word is the name of the file. -/
def wordsFor (file : Text) (words : List Text) : List Text :=
  words.map (Text.replace "\x7bfile\x7d" file)

/-- What a command that ended with a status gives: its output, or a failure with what it said. -/
def bodyOf (file : Text) (status : Int) (output errors : Text) : Except Failure Text :=
  if status = 0 then .ok output
  else .error (.transpilerFailed file status (Text.trim (if errors.isEmpty then output else errors)))

/-- Runs a command on the source of a module. -/
def runCommand (words : List Text) (file source : Text) : Build Text := do
  let command := wordsFor file words
  Build.log (Log.debug ("Transpiling " ++ file ++ ": " ++ Text.join " " command))
  match command with
  | [] => throw .noCommand
  | name :: _ =>
    match ← Build.start { command, input? := some source } with
    | .notStarted e => throw (.transpilerNotStarted file name e)
    | .interrupted => throw .interrupted
    | .exited status output errors => Build.ofExcept (bodyOf file status output errors)

/-- The body of the module in `file`. -/
def transpile (file source : Text) : Transpiler → Build Text
  | .lowering => Build.ofLogged (Lowering.transpile file source)
  | .command words => runCommand words file source

end Transpiler

end ScriptBundle
