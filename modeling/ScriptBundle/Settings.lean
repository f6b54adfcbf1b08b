import ScriptBundle.Text.CodePoint

/-!
# Settings of a build

The options that several stages of a build share, and the levels of its log.
-/

namespace ScriptBundle

/-- How much is logged, and how important a message is. -/
inductive LogLevel
  | silent
  | error
  | warning
  | info
  | debug
  deriving DecidableEq

namespace LogLevel

/-- The weight of a level; a message is logged when its weight is at most that of the settings. -/
def weight : LogLevel → Nat
  | .silent => 0
  | .error => 3
  | .warning => 6
  | .info => 10
  | .debug => 30

/-- Whether settings of this level admit a message of the other one. -/
def admits (setting message : LogLevel) : Bool := message.weight ≤ setting.weight

/-- The mark of a level in a log with time stamps. -/
def mark : LogLevel → Text
  | .silent => []
  | .error => "[ERROR]"
  | .warning => "[WARNING]"
  | .info => "[INFO]"
  | .debug => "[DEBUG]"

end LogLevel

/-- The options of a build. -/
structure Settings where
  /-- The extensions implied for relative specifiers, in the order in which they are tried. -/
  sourceExtensions : List Text := [".ts"]
  /-- The stem of the file that stands for a directory. -/
  indexName : Text := "index"
  /-- The name of the directories that hold packages. -/
  packageDirectory : Text := "node_modules"
  /-- The extension of a package's script and of its index file. -/
  packageExtension : Text := ".js"
  /-- Whether log lines carry time and level. -/
  timeStamps : Bool := false
  logLevel : LogLevel := .warning
  deriving DecidableEq

end ScriptBundle
