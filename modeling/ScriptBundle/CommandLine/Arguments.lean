import ScriptBundle.Text.Digit
import ScriptBundle.Text.Quoted

/-!
# Reading a command line

The arguments of the program: one entry file and the options below, in any order. An option has a long
name, which may be shortened, or a single letter; letters without a value can share one dash, and a
value stands behind its option, behind a `=`, or directly behind the letter.

* `Flag`, with its spellings; `UsageError`, with its message;
* `Argument.ofText`: what a single argument is;
* `Arguments.parse`: a whole command line. The arguments behind the first `--` belong to the program
  that is run.
-/

namespace ScriptBundle

/-- The options of the command line. -/
inductive Flag
  | help
  | output
  | graph
  | run
  | verbose
  | log
  | extension
  | noCheck
  | checkCommand
  | transpileCommand
  deriving DecidableEq

namespace Flag

/-- All options, in the order in which they are listed. -/
def all : List Flag :=
  [.help, .output, .graph, .run, .verbose, .log, .extension, .noCheck, .checkCommand,
    .transpileCommand]

/-- The spellings of an option. -/
def spellings : Flag → List Text
  | .help => ["-h", "--help"]
  | .output => ["--output", "-o"]
  | .graph => ["--graph", "-g"]
  | .run => ["--run", "-r"]
  | .verbose => ["-v", "--verbose"]
  | .log => ["-l", "--log"]
  | .extension => ["--ext"]
  | .noCheck => ["--no-check"]
  | .checkCommand => ["--check-cmd"]
  | .transpileCommand => ["--transpile-cmd"]

/-- Whether an option has a value. -/
def hasValue : Flag → Bool
  | .output | .extension | .checkCommand | .transpileCommand => true
  | _ => false

/-- An option as messages name it. -/
def title (f : Flag) : Text := Text.join "/" f.spellings

/-- The spellings of all options. -/
def table : List (Text × Flag) := all.flatMap fun f => f.spellings.map fun s => (s, f)

/-- The option with a given spelling. -/
def ofSpelling? (s : Text) : Option Flag := table.lookup s

end Flag

/-- Why a command line is refused. -/
inductive UsageError
  | ambiguous (argument : Text) (spellings : List Text)
  | unusedValue (flag : Flag) (value : Text)
  | valueExpected (flag : Flag)
  | conflict (flag other : Flag)
  | entryRequired
  | unrecognized (arguments : List Text)
  | programArguments
  deriving DecidableEq

namespace UsageError

/-- A message about an option. -/
def aboutFlag (f : Flag) (message : Text) : Text := "argument " ++ f.title ++ ": " ++ message

/-- The message for a usage error. -/
def message : UsageError → Text
  | .ambiguous argument spellings =>
    "ambiguous option: " ++ argument ++ " could match " ++ Text.join ", " spellings
  | .unusedValue f value => aboutFlag f ("ignored explicit argument " ++ value.quoted)
  | .valueExpected f => aboutFlag f "expected one argument"
  | .conflict f other => aboutFlag f ("not allowed with argument " ++ other.title)
  | .entryRequired => "the following arguments are required: entry"
  | .unrecognized arguments => "unrecognized arguments: " ++ Text.join " " arguments
  | .programArguments => "program arguments after '--' require --run"

end UsageError

/-- What a single argument is. -/
inductive Argument
  | operand (s : Text)
  | unknown (s : Text)
  /-- An option under its single letter or under its long name. -/
  | option (flag : Flag) (letter : Bool) (value : Option Text)
  deriving DecidableEq

namespace Argument

/-- Whether a text is a negative number: it names no option then. -/
def isNegativeNumber (s : Text) : Bool :=
  let s := if s.getLast? = some (CodePoint.ofChar '\n') then s.dropLast else s
  match s with
  | c :: rest =>
    let whole := rest.takeWhile (·.isDecimal)
    let behind := rest.drop whole.length
    c = '-' &&
      ((behind.isEmpty && !whole.isEmpty) ||
        (Text.headIs behind '.' && !behind.tail.isEmpty && behind.tail.all (·.isDecimal)))
  | [] => false

/-- The part of a text in front of its first `=`, and the value behind it. -/
def splitValue (s : Text) : Text × Option Text :=
  let name := s.takeWhile fun c => c ≠ CodePoint.ofChar '='
  if name.length = s.length then (s, none) else (name, some (s.drop (name.length + 1)))

/-- Whether a spelling is a single letter behind a dash. -/
def isLetter (spelling : Text) : Bool := !(Text.ofString "--").isPrefixOf spelling

/-- The options that an argument, which is no spelling itself, can stand for. -/
def interpretations (s : Text) : List (Text × Argument) :=
  if isLetter s then
    (Flag.table.filter fun (spelling, _) => spelling = s.take 2).map fun (spelling, f) =>
      (spelling, .option f true (some (s.drop 2)))
  else
    let (name, value) := splitValue s
    (Flag.table.filter fun (spelling, _) => name.isPrefixOf spelling).map fun (spelling, f) =>
      (spelling, .option f false value)

/-- What an argument is that stands for no option. -/
def ofOther (s : Text) : Argument :=
  if isNegativeNumber s || CodePoint.ofChar ' ' ∈ s then .operand s else .unknown s

/-- What an argument is. -/
def ofText (s : Text) : Except UsageError Argument :=
  if !Text.headIs s '-' then .ok (.operand s)
  else
    match Flag.ofSpelling? s with
    | some f => .ok (.option f (isLetter s) none)
    | none =>
      if s.length = 1 then .ok (.operand s)
      else
        let (name, value) := splitValue s
        match value, Flag.ofSpelling? name with
        | some v, some f => .ok (.option f (isLetter name) (some v))
        | _, _ =>
          match interpretations s with
          | [] => .ok (ofOther s)
          | [(_, a)] => .ok a
          | many => .error (.ambiguous s (many.map (·.1)))

end Argument

/-- What an argument with options comes to: options with their values, and an option that is still
without one. -/
structure Expansion where
  set : List (Flag × Option Text)
  open? : Option Flag

namespace Expansion

/-- An expansion behind an option without a value. -/
def behind (flag : Flag) (e : Expansion) : Expansion := { e with set := (flag, none) :: e.set }

/-- The options in one argument: `flag` with the attached value `value`. What is attached to a letter
that takes no value is a sequence of further letters. -/
def ofValue (letter : Bool) (flag : Flag) (value : Text) : Except UsageError Expansion :=
  if flag.hasValue then .ok ⟨[(flag, some value)], none⟩
  else
    match letter, value with
    | true, c :: rest =>
      match Flag.ofSpelling? ['-', c], rest with
      | none, _ => .error (.unusedValue flag value)
      | some f, [] => .ok ⟨[(flag, none)], some f⟩
      | some f, rest => (ofValue true f rest).map (behind flag)
    | _, _ => .error (.unusedValue flag value)

end Expansion

/-- What the program is asked to do with its entry. -/
inductive Mode
  | build
  | graph
  | run
  deriving DecidableEq

/-- The options of a command line. -/
structure Arguments where
  entryFile? : Option Text := none
  output? : Option Text := none
  mode : Mode := .build
  verbosity : Int := 0
  timeStamps : Bool := false
  extensions : List Text := []
  noCheck : Bool := false
  checkCommand? : Option Text := none
  transpileCommand? : Option Text := none
  programArguments : List Text := []
  unrecognized : List Text := []
  help : Bool := false

namespace Arguments

/-- Takes an option and its value over. -/
def set (a : Arguments) (flag : Flag) (value : Option Text) : Except UsageError Arguments :=
  match flag with
  | .help => .ok { a with help := true }
  | .output => .ok { a with output? := value }
  | .graph => if a.mode = .run then .error (.conflict .graph .run) else .ok { a with mode := .graph }
  | .run => if a.mode = .graph then .error (.conflict .run .graph) else .ok { a with mode := .run }
  | .verbose => .ok { a with verbosity := a.verbosity + 1 }
  | .log => .ok { a with timeStamps := true }
  | .extension => .ok { a with extensions := a.extensions ++ value.toList }
  | .noCheck => .ok { a with noCheck := true }
  | .checkCommand => .ok { a with checkCommand? := value }
  | .transpileCommand => .ok { a with transpileCommand? := value }

/-- Takes several options over. A call for help ends the command line. -/
def setAll (a : Arguments) : List (Flag × Option Text) → Except UsageError Arguments
  | [] => .ok a
  | (f, v) :: rest => if a.help then .ok a else (a.set f v).bind (setAll · rest)

/-- Takes an operand over: the first one is the entry. -/
def addOperand (a : Arguments) (s : Text) : Arguments :=
  match a.entryFile? with
  | none => { a with entryFile? := some s }
  | some _ => { a with unrecognized := a.unrecognized ++ [s] }

/-- The options in one argument. -/
def expand (flag : Flag) (letter : Bool) (value : Option Text) : Except UsageError Expansion :=
  match value with
  | none => .ok ⟨[], some flag⟩
  | some v => Expansion.ofValue letter flag v

/-- Takes the arguments of a command line over, one after the other. -/
def addAll (a : Arguments) : List Argument → Except UsageError Arguments
  | [] => .ok a
  | .operand s :: rest => if a.help then .ok a else addAll (a.addOperand s) rest
  | .unknown s :: rest =>
    if a.help then .ok a else addAll { a with unrecognized := a.unrecognized ++ [s] } rest
  | .option flag letter value :: rest =>
    if a.help then .ok a
    else
      match expand flag letter value with
      | .error e => .error e
      | .ok e =>
        match e.open? with
        | none => (a.setAll e.set).bind (addAll · rest)
        | some f =>
          if f.hasValue then
            match rest with
            | .operand v :: rest => (a.setAll (e.set ++ [(f, some v)])).bind (addAll · rest)
            | _ => .error (.valueExpected f)
          else (a.setAll (e.set ++ [(f, none)])).bind (addAll · rest)

/-- Checks that a command line is complete and holds nothing else. -/
def finish (a : Arguments) : Except UsageError Arguments :=
  if a.help then .ok a
  else if a.entryFile?.isNone then .error .entryRequired
  else if !a.unrecognized.isEmpty then .error (.unrecognized a.unrecognized)
  else if !a.programArguments.isEmpty && a.mode ≠ .run then .error .programArguments
  else .ok a

/-- The arguments of a command line. -/
def parse (argv : List Text) : Except UsageError Arguments := do
  let mark := Text.ofString "--"
  let own := argv.takeWhile fun s => s ≠ mark
  let parsed ← own.mapM Argument.ofText
  let a ← addAll { programArguments := argv.drop (own.length + 1) } parsed
  a.finish

end Arguments

end ScriptBundle
