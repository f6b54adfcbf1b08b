import ScriptBundle.Diagnostic
import ScriptBundle.FileTree
import ScriptBundle.Statement.Scanner

/-!
# Failures of a build

Every way in which a build can end without a bundle, as a cause, and the report of each. Most are
errors of the project; an `InternalFault` is a violated invariant of the build itself; and the last
seven end the build without an orderly report: a name for the top of the file tree, a path that the
system cannot be asked for, a command without a word, a command line whose quoting is broken, a
command that the user interrupts, a checker's report whose numbers are too long, and a bundle that has
no encoding.
-/

namespace ScriptBundle

/-- Why a module was not found. -/
inductive NotFound
  /-- There is no file for a path-like specifier. -/
  | file
  /-- There is no package of that name. -/
  | package
  /-- There is no package directory above the directory `start`. -/
  | packageDirectory (name : Text) (start : Path)
  deriving DecidableEq

/-- Why a package manifest is malformed. -/
inductive ManifestFault
  /-- Its path is none that the system can be asked for. -/
  | path (fault : PathFault)
  | encoding (fault : Utf8.Fault)
  /-- It is no JSON; the message says where. -/
  | json (message : Text)
  /-- It is JSON but no object. -/
  | notAnObject
  deriving DecidableEq

/-- A violated invariant of the build. -/
inductive InternalFault
  /-- A module of a graph has an identity other than its position. -/
  | misplacedModule (path : Path) (id : Int) (position : Nat)
  /-- There is no module to put into a bundle. -/
  | noModules
  /-- A module of a bundle has an identity other than its position. -/
  | misplacedScript (path : Path) (id : Int) (position : Nat)
  /-- A module of a bundle has no body. -/
  | noBody (path : Path)
  /-- A dependency of a module of a bundle has an identity that no module has. -/
  | unknownDependency (specifier : Text) (path : Path) (id : Int)
  /-- A graph is larger than its file tree allows. -/
  | unboundedGraph
  deriving DecidableEq

/-- Why a command line cannot be split into words. -/
inductive QuotingFault
  | unclosedQuote
  | danglingBackslash
  deriving DecidableEq

/-- Why a build has no bundle. -/
inductive Failure
  /-- A source is malformed. -/
  | malformedSource (file : Text) (fault : SyntaxFault)
  /-- A specifier cannot be resolved. -/
  | moduleNotFound (cause : NotFound) (specifier : Text) (importer : Option Text)
  /-- A source cannot be read. -/
  | unreadableSource (path : Path) (error : ReadError)
  /-- A package manifest cannot be read. -/
  | unreadableManifest (path : Path) (error : SystemError)
  /-- A package manifest says nothing. -/
  | malformedManifest (path : Path) (fault : ManifestFault)
  /-- A source holds type syntax that only an external transpiler removes. -/
  | typeSyntax (file : Text) (token : Token)
  /-- An external transpiler does not start. -/
  | transpilerNotStarted (file command : Text) (error : SystemError)
  /-- An external transpiler refuses a module. -/
  | transpilerFailed (file : Text) (status : Int) (details : Text)
  /-- A type checker has something to say. -/
  | typeErrors (diagnostics : List Diagnostic)
  | internal (fault : InternalFault)
  | name (fault : NameFault)
  /-- The system cannot be asked for the path of a file. -/
  | invalidPath (fault : PathFault)
  | noCommand
  | quoting (fault : QuotingFault)
  /-- The user interrupts a command of the build. -/
  | interrupted
  /-- A number in the report of a type checker is too long. -/
  | unreadableReport (fault : TooManyDigits)
  /-- The bundle cannot be encoded. -/
  | unencodable (fault : Utf8.Unencodable)

namespace NotFound

/-- The message for a module that was not found. -/
def message (specifier : Text) : NotFound → Text
  | .file => "[RES-0010] Cannot find module '" ++ specifier ++ "'"
  | .package => "[RES-0020] Cannot find module '" ++ specifier ++ "'"
  | .packageDirectory name start =>
    "[RES-0030] Cannot find module '" ++ specifier ++ "': no '" ++ name ++ "' directory above " ++
      start.text

end NotFound

namespace ManifestFault

/-- The message for a malformed manifest. -/
def message : ManifestFault → Text
  | .path f => f.message
  | .encoding f => f.message
  | .json m => m
  | .notAnObject => "expected an object"

end ManifestFault

namespace InternalFault

/-- The message for a violated invariant. -/
def message : InternalFault → Text
  | .misplacedModule path id position =>
    "[ICE-0010] module " ++ path.text ++ " has identity " ++ Text.ofInt id ++ " at position " ++
      Text.ofNat position
  | .noModules => "[ICE-0020] cannot generate a bundle without modules"
  | .misplacedScript path id position =>
    "[ICE-0021] module " ++ path.text ++ " has identity " ++ Text.ofInt id ++ " at position " ++
      Text.ofNat position
  | .noBody path => "[ICE-0022] module " ++ path.text ++ " was not transpiled"
  | .unknownDependency specifier path id =>
    "[ICE-0023] '" ++ specifier ++ "' in " ++ path.text ++ " refers to unknown module " ++
      Text.ofInt id
  | .unboundedGraph => "module graph is larger than its file tree allows"

/-- The file that a violated invariant is about. -/
def file? : InternalFault → Option Text
  | .misplacedModule path .. | .misplacedScript path .. | .noBody path
  | .unknownDependency _ path _ => some path.text
  | .noModules | .unboundedGraph => none

/-- The report of a violated invariant. -/
def report (f : InternalFault) : ErrorReport := { message := f.message, file? := f.file? }

end InternalFault

namespace QuotingFault

/-- The message for a command line that cannot be split. -/
def message : QuotingFault → Text
  | .unclosedQuote => "No closing quotation"
  | .danglingBackslash => "No escaped character"

end QuotingFault

namespace Failure

/-- A report about a place in a file. -/
def reportAt (file : Text) (p : Position) (message : Text) : ErrorReport :=
  { message, file? := some file, line? := some p.line, column? := some p.column }

/-- The report of a failure. -/
def report : Failure → ErrorReport
  | .malformedSource file fault => reportAt file fault.position fault.message
  | .moduleNotFound cause specifier importer =>
    { message := cause.message specifier, file? := importer }
  | .unreadableSource path e =>
    { message := "[IO-0010] cannot read " ++ path.text ++ ": " ++ e.message path.text
      file? := some path.text }
  | .unreadableManifest path e =>
    { message := "[IO-0020] cannot read " ++ path.text ++ ": " ++ e.message path.text
      file? := some path.text }
  | .malformedManifest path fault =>
    { message := "[IO-0021] malformed package manifest " ++ path.text ++ ": " ++ fault.message
      file? := some path.text }
  | .typeSyntax file t =>
    reportAt file t.start ("[TRN-0030] TypeScript syntax " ++ t.quoted ++
      " needs an external transpiler (set --transpile-cmd or TSB_TRANSPILE_CMD)")
  | .transpilerNotStarted file command e =>
    { message := "[TRN-0020] cannot run transpiler '" ++ command ++ "': " ++ e.message command
      file? := some file }
  | .transpilerFailed file status details =>
    let details : Text := if details.isEmpty then [] else ":\n" ++ details
    { message := "[TRN-0010] transpiler exited with status " ++ Text.ofInt status ++ details
      file? := some file }
  | .typeErrors ds =>
    { message := "[CHK-0010] type check failed with " ++ Text.ofNat ds.length ++ " diagnostic(s)" }
  | .internal fault => fault.report
  | .name fault => { message := fault.message }
  | .invalidPath fault => { message := fault.message }
  | .noCommand => { message := "list index out of range" }
  | .quoting fault => { message := fault.message }
  | .interrupted => { message := [] }
  | .unreadableReport fault => { message := fault.message }
  | .unencodable fault => { message := fault.message }

/-- Whether a failure is reported to the user and ends the build in an orderly way. -/
def isReported : Failure → Bool
  | .name _ | .invalidPath _ | .noCommand | .quoting _ | .interrupted | .unreadableReport _
  | .unencodable _ => false
  | _ => true

/-- The line that the user sees. -/
def format (f : Failure) : Text :=
  match f with
  | .internal fault => fault.report.formatInternal
  | f => f.report.format

end Failure

end ScriptBundle
