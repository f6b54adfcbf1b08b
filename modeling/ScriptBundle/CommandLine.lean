import ScriptBundle.Bundle
import ScriptBundle.CommandLine.Action
import ScriptBundle.CommandLine.Arguments
import ScriptBundle.Diagnostic.Snippet

/-!
# The command line program

The program bundles the modules of an entry file, or shows their graph, or runs the bundle. It works on
a `Machine`: files, environment variables and the answers of the processes that it starts. What it
leaves behind is a `CommandLine.Result`. There is a place for a temporary file, and what the program
writes can be shown.

* `Arguments.settings`, `Arguments.toolchain`: what the options mean;
* `CommandLine.build`, `CommandLine.run`, `CommandLine.graph`: the three modes;
* `CommandLine.main`: the whole program.
-/

namespace ScriptBundle

/-- What the program finds when it starts. -/
structure Machine where
  workspace : Workspace
  environment : List (Text × Text)
  outcomes : List ProcessOutcome
  clock : Text

namespace Machine

/-- The value of an environment variable that is set and not empty. -/
def value? (m : Machine) (name : Text) : Option Text :=
  (m.environment.lookup name).filter (!·.isEmpty)

end Machine

namespace Arguments

/-- The level of the log for a number of `-v`. -/
def logLevel (verbosity : Int) : LogLevel :=
  if 3 ≤ verbosity then .debug else if 1 ≤ verbosity then .info else .error

/-- An extension with its dot. -/
def withDot (ext : Text) : Text := if Text.headIs ext '.' then ext else "." ++ ext

/-- The settings that the options ask for. -/
def settings (a : Arguments) : Settings :=
  let extensions : List Text := if a.extensions.isEmpty then [".ts"] else a.extensions
  { sourceExtensions := extensions.map withDot
    timeStamps := a.timeStamps
    logLevel := logLevel a.verbosity }

/-- A value that is given and not empty. -/
def given (value : Option Text) : Option Text := value.filter (!·.isEmpty)

/-- The transpiler that the options or the environment ask for. -/
def transpiler (a : Arguments) (m : Machine) : Build Transpiler :=
  match (given a.transpileCommand?).or (m.value? "TSB_TRANSPILE_CMD") with
  | some command => do
    Build.log (Log.info ("Transpiler: " ++ command))
    Build.ofExcept (Transpiler.ofCommand command)
  | none => do
    Build.log (Log.info "Transpiler: built-in ES module lowering")
    return .lowering

/-- The type checker that the options or the environment ask for. -/
def checker (a : Arguments) (m : Machine) : Build Checker :=
  if a.noCheck then do
    Build.log (Log.info "Type checking disabled")
    return .none
  else do
    let command := ((given a.checkCommand?).or (m.value? "TSB_CHECK_CMD")).getD "tsc"
    Build.log (Log.info ("Type checker: " ++ command))
    Build.ofExcept (Checker.ofCommand command)

/-- The tools that the options ask for. -/
def toolchain (a : Arguments) (m : Machine) : Build Toolchain := do
  let transpiler ← a.transpiler m
  let checker ← a.checker m
  return { resolver := .ofWorkspace m.workspace a.settings, transpiler, checker }

end Arguments

namespace CommandLine

/-- How a mode ends: with a status, and what it wrote. -/
structure Ending where
  status : Int
  output : Text := []

/-- What the program leaves behind. -/
structure Result where
  status : Except Failure Int
  output : Text
  errors : Text
  calls : List ProcessCall
  tree : FileTree

/-- The result of an action, or its failure if that is one to report. -/
def attempt {α : Type} (x : Build α) : Build (Except Failure α) := do
  match ← (ExceptT.lift x.run : Build (Except Failure α)) with
  | .error f => if f.isReported then return .error f else throw f
  | .ok a => return .ok a

/-- Shows the user a failure; that of a check, with its diagnostics in front. -/
def showFailure (ws : Workspace) (f : Failure) : Logged Unit := do
  if let .typeErrors ds := f then Snippet.logAll ws ds
  Logged.log (Log.error f.format)

/-- The bundle of an entry, if it can be built; otherwise the user sees why not. -/
def bundle? (ws : Workspace) (tools : Toolchain) (entry : Text) : Build (Option Bundle) := do
  match ← attempt (tools.bundle entry) with
  | .ok b => return some b
  | .error f =>
    Build.ofLogged (showFailure ws f)
    return none

/-- The bundle that the options ask for, if it can be built. -/
def makeBundle (m : Machine) (a : Arguments) : Build (Option Bundle) := do
  bundle? m.workspace (← a.toolchain m) (a.entryFile?.getD [])

/-- Writes a bundle to the file that a text names. -/
def writeBundle (cwd : Path) (output : Text) (b : Bundle) : Action Ending := do
  let path := Path.ofText output
  match (← Action.files).writable cwd path with
  | .error (.path f) => throw (.invalidPath f)
  | .error (.failed e) =>
    Action.log (Log.error ("error: [TSB-0030] cannot write " ++ output ++ ": " ++ e.message path.text))
    return { status := 1 }
  | .ok loc =>
    Action.write loc b.code
    Action.log (Log.info ("Wrote bundle: " ++ output))
    return { status := 0 }

/-- Bundles the entry into the output file. -/
def build (m : Machine) (a : Arguments) : Action Ending := do
  match ← Action.ofBuild (makeBundle m a), Arguments.given a.output? with
  | none, _ => return { status := 1 }
  | some _, none =>
    Action.log (Log.error "error: [TSB-0020] no output file given (use -o <file>)")
    return { status := 1 }
  | some b, some output => writeBundle m.workspace.cwd output b

/-- The places of temporary scripts, in the order in which they are tried. -/
def temporaryPlace (n : Nat) : Location :=
  ["tmp", "tsb_run" ++ List.replicate n (CodePoint.ofChar '_') ++ ".js"]

/-- The first place of a temporary script that is free. -/
def temporaryFile (t : FileTree) : Location :=
  temporaryPlace (((List.range (t.entries.length + 1)).find? fun n =>
    (t.at? (temporaryPlace n)).isNone).getD 0)

/-- Runs the bundle that the file at `loc` holds. -/
def runFile (m : Machine) (a : Arguments) (loc : Location) (b : Bundle) : Build Ending := do
  let node := (m.value? "TSB_NODE").getD "node"
  let command := node :: Path.text ⟨.top, loc⟩ :: a.programArguments
  Build.log (Log.info ("Running: " ++ Text.join " " command))
  match ← Build.start { command, bundle? := some b.code } with
  | .exited status _ _ => return { status }
  | .interrupted => return { status := 130 }
  | .notStarted e =>
    Build.log (Log.error ("error: [TSB-0040] cannot run '" ++ node ++ "': " ++ e.message node))
    return { status := 1 }

/-- Runs a bundle from a temporary file, which is gone when the run has ended. -/
def runBundle (m : Machine) (a : Arguments) (b : Bundle) : Action Ending := do
  let loc := temporaryFile (← Action.files)
  Action.write loc b.code
  (Action.ofBuild (runFile m a loc b)).andFinally (Action.remove loc)

/-- Bundles the entry and runs the bundle. -/
def run (m : Machine) (a : Arguments) : Action Ending := do
  match ← Action.ofBuild (makeBundle m a) with
  | none => return { status := 1 }
  | some b => runBundle m a b

/-- Shows the modules of the entry. -/
def graph (m : Machine) (a : Arguments) : Build Ending := do
  let tools ← a.toolchain m
  match ← attempt (tools.buildGraph (a.entryFile?.getD [])) with
  | .error f =>
    Build.log (Log.error f.format)
    return { status := 1 }
  | .ok g => return { status := 0, output := g.table ++ Text.lineFeed }

/-- Does what the options ask for. -/
def perform (m : Machine) (a : Arguments) : Action Ending :=
  match a.mode with
  | .build => build m a
  | .run => run m a
  | .graph => Action.ofBuild (graph m a)

/-- The program, with the arguments `argv`. -/
def main (m : Machine) (argv : List Text) : Result :=
  match Arguments.parse argv with
  | .error e => ⟨.ok 2, [], "tsbc: error: " ++ e.message ++ "\n", [], m.workspace.tree⟩
  | .ok a =>
    if a.help then ⟨.ok 0, [], [], [], m.workspace.tree⟩
    else
      let (r, s) := (perform m a).run ⟨m.workspace.tree, { outcomes := m.outcomes }⟩
      let errors := Log.render a.settings m.clock s.session.log
      match r with
      | .ok e => ⟨.ok e.status, e.output, errors, s.session.calls, s.tree⟩
      | .error f => ⟨.error f, [], errors, s.session.calls, s.tree⟩

end CommandLine

end ScriptBundle
