import ScriptBundle.Diagnostic
import ScriptBundle.Text.Blank
import ScriptBundle.Text.Lines

/-!
# Reports of a type checker

A type checker writes one diagnostic on a line, `file(line,column): kind code: message` or
`kind code: message`, and may go on with lines that start with white space. `Report.parse` accounts
for every line that is not blank: a line of another form is an error of its own. Only a place whose
line or column has too many digits makes a report unreadable.
-/

namespace ScriptBundle.Report

/-- The decimal number at the head of a text, and what follows it. -/
def number? (s : Text) : Option (Except TooManyDigits Nat × Text) :=
  let digits := s.takeWhile (·.isDecimal)
  if digits.isEmpty then none else some (Text.readDecimal digits, s.drop digits.length)

/-- What follows `mark` at the head of a text. -/
def after? (mark s : Text) : Option Text :=
  if mark.isPrefixOf s then some (s.drop mark.length) else none

/-- The kind of a diagnostic at the head of a text, and what follows it. -/
def kind? (s : Text) : Option (Text × Text) :=
  match after? "error" s with
  | some rest => some ("error", rest)
  | none => (after? "warning" s).map fun rest => ("warning", rest)

/-- The diagnostic `kind code: message` that makes up a text. -/
def global? (s : Text) : Option Diagnostic := do
  let (kind, s) ← kind? s
  let s ← after? " TS" s
  let digits := s.takeWhile (·.isDecimal)
  if digits.isEmpty then none
  let message ← after? ": " (s.drop digits.length)
  return { kind, message, code? := some ("TS" ++ digits) }

/-- The diagnostic that follows a file name: `(line,column): kind code: message`. -/
def location? (s : Text) : Option (Except TooManyDigits Diagnostic) := do
  let s ← after? "(" s
  let (line, s) ← number? s
  let s ← after? "," s
  let (column, s) ← number? s
  let s ← after? "): " s
  let d ← global? s
  return do return { d with line? := some (← line), column? := some (← column) }

/-- The located diagnostic that makes up a line, of which `done` (last code point first) belongs to
the file name. The file name is the shortest one possible, and it is not empty. -/
def locatedFrom? (done : Text) : Text → Option (Except TooManyDigits Diagnostic)
  | [] => none
  | c :: s =>
    match location? s with
    | some d => some (d.map fun d => { d with file? := some (c :: done).reverse })
    | none => locatedFrom? (c :: done) s

/-- The located diagnostic that makes up a line. -/
def located? (line : Text) : Option (Except TooManyDigits Diagnostic) := locatedFrom? [] line

/-- The diagnostics behind one more line; the latest diagnostic comes first. -/
def addLine (ds : List Diagnostic) (line : Text) : Except TooManyDigits (List Diagnostic) :=
  if Text.isBlank line then .ok ds
  else
    match located? line, global? line with
    | some located, _ => located.map (· :: ds)
    | none, some d => .ok (d :: ds)
    | none, none =>
      match ds with
      | d :: rest =>
        if line.head?.any (·.isBlank) then
          .ok ({ d with message := d.message ++ "\n" ++ Text.trimEnd line } :: rest)
        else .ok ({ kind := "error", message := Text.trimEnd line } :: d :: rest)
      | [] => .ok [{ kind := "error", message := Text.trimEnd line }]

/-- The diagnostics of a report. -/
def parse (report : Text) : Except TooManyDigits (List Diagnostic) :=
  ((Text.boundaryLines report).foldlM addLine []).map List.reverse

end ScriptBundle.Report
