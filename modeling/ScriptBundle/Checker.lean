import ScriptBundle.Diagnostic.Report
import ScriptBundle.Session
import ScriptBundle.Words

/-!
# Type checkers

A build may ask an external command to check the program from its entry on. The command succeeds only
without a diagnostic: one that ends with an error status and says nothing counts as an error.
-/

namespace ScriptBundle

/-- How a program is checked. -/
inductive Checker
  /-- Every program passes. -/
  | none
  /-- The command checks the program, with the arguments and the entry behind it. -/
  | command (command arguments : List Text)

namespace Checker

/-- The arguments for a type checker. -/
def defaultArguments : List Text :=
  ["--noEmit", "--pretty", "false", "--strict", "--target", "esnext", "--moduleResolution", "node"]

/-- The checker that a command text stands for. -/
def ofCommand (command : Text) : Except Failure Checker :=
  (Words.split command).map fun words => .command words defaultArguments

/-- An error without a place. -/
def error (message : Text) : Diagnostic := { kind := "error", message }

/-- The texts that a checker wrote, as one report. -/
def reportOf (output errors : Text) : Text :=
  Text.join "\n" ([output, errors].filter (!·.isEmpty))

/-- The diagnostics of a checker that ended with a status after it reported `found`. -/
def diagnosticsOf (name : Text) (status : Int) (found : List Diagnostic) : List Diagnostic :=
  if status ≠ 0 ∧ found.isEmpty then
    [error ("type checker '" ++ name ++ "' exited with status " ++ Text.ofInt status)]
  else found

/-- The diagnostics of a checker that did not start. -/
def notStarted (name : Text) (e : SystemError) : List Diagnostic :=
  [error ("cannot run type checker '" ++ name ++ "': " ++ e.message name)]

/-- Checks the program with the entry file `entry`. -/
def check (entry : Text) : Checker → Build (List Diagnostic)
  | .none => return []
  | .command words arguments => do
    let command := words ++ arguments ++ [entry]
    let name := command.headD []
    Build.log (Log.info ("Type checking: " ++ Text.join " " command))
    match ← Build.start { command } with
    | .notStarted e => return notStarted name e
    | .interrupted => throw .interrupted
    | .exited status output errors =>
      let found ← Build.ofExcept ((Report.parse (reportOf output errors)).mapError .unreadableReport)
      Build.log (Log.debug ("Type checker exited with status " ++ Text.ofInt status ++ ", " ++
        Text.ofNat found.length ++ " diagnostic(s)"))
      return diagnosticsOf name status found

end Checker

end ScriptBundle
