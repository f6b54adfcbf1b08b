import ScriptBundle.Json
import ScriptBundle.Position
import ScriptBundle.StringLiteral

/-!
# Reading JSON

The reader goes over a text piece by piece: a bracket, a colon, a comma, a string, a number or a word.
What it has to remember are the arrays and objects that are open (`Frame`s, innermost first) and what
may come next (`Expected`). White space may stand between any two pieces, and nothing bounds how deeply
values nest.

* `Json.parse`: the value that a text denotes;
* `Json.Fault`: what is wrong with a text and at which offset, and its message.
-/

namespace ScriptBundle.Json

/-- What is wrong with a text that is no JSON. -/
inductive Fault.Cause
  | byteOrderMark
  | valueExpected
  | keyExpected
  | colonExpected
  | commaExpected
  | unterminatedString
  | controlCharacter
  | invalidEscape
  | invalidUnicodeEscape
  | extraData
  /-- An integer is too long. -/
  | tooManyDigits (fault : TooManyDigits)
  deriving DecidableEq

/-- What is wrong with a text, and at which offset. -/
structure Fault where
  cause : Fault.Cause
  offset : Nat
  deriving DecidableEq

namespace Fault

/-- The message for a cause. -/
def Cause.message : Cause → Text
  | .byteOrderMark => "Unexpected UTF-8 BOM (decode using utf-8-sig)"
  | .valueExpected => "Expecting value"
  | .keyExpected => "Expecting property name enclosed in double quotes"
  | .colonExpected => "Expecting ':' delimiter"
  | .commaExpected => "Expecting ',' delimiter"
  | .unterminatedString => "Unterminated string starting at"
  | .controlCharacter => "Invalid control character at"
  | .invalidEscape => "Invalid \\escape"
  | .invalidUnicodeEscape => "Invalid \\uXXXX escape"
  | .extraData => "Extra data"
  | .tooManyDigits fault => fault.message

/-- The message for a fault in a text, with its line, column and offset. -/
def message (source : Text) (f : Fault) : Text :=
  match f.cause with
  | .tooManyDigits _ => f.cause.message
  | cause =>
    let p := Position.start.after (source.take f.offset)
    cause.message ++ ": line " ++ Text.ofNat p.line ++ " column " ++ Text.ofNat p.column ++
      " (char " ++ Text.ofNat f.offset ++ ")"

end Fault

/-- White space between two pieces. -/
def isSpace (c : CodePoint) : Bool := c = ' ' || c = '\t' || c = '\n' || c = '\r'

/-- What a letter behind a backslash stands for. -/
def simpleEscape? (c : CodePoint) : Option CodePoint :=
  if c = '"' || c = '\\' || c = '/' then some c
  else if c = 'b' then some '\x08'
  else if c = 'f' then some '\x0c'
  else if c = 'n' then some '\n'
  else if c = 'r' then some '\r'
  else if c = 't' then some '\t'
  else none

/-- The escape of a second surrogate half at the head of `s`, which stands at the offset `offset`: its
code point if it is one that goes with the first half `high`. -/
def secondHalf (high : CodePoint) (offset : Nat) (s : Text) : Except Fault (Option CodePoint) :=
  if high.isHighSurrogate && 7 ≤ s.length && (Text.ofString "\\u").isPrefixOf s then
    match StringLiteral.fixedHex? 4 (s.drop 2) with
    | none => .error ⟨.invalidUnicodeEscape, offset + 1⟩
    | some low =>
      .ok (if low.isLowSurrogate then some (StringLiteral.joined high low) else none)
  else .ok none

/-- The escape behind a backslash at the offset `offset`, of which `s` is what follows: its code point
and how far it goes on behind the backslash. `opening` is the offset of the string. -/
def readEscape (opening offset : Nat) : Text → Except Fault (CodePoint × Nat)
  | [] => .error ⟨.unterminatedString, opening⟩
  | c :: s =>
    if c = 'u' then
      if s.length < 5 then .error ⟨.invalidUnicodeEscape, offset + 1⟩
      else
        match StringLiteral.fixedHex? 4 s with
        | none => .error ⟨.invalidUnicodeEscape, offset + 1⟩
        | some v =>
          (secondHalf v (offset + 6) (s.drop 4)).map fun
            | some joined => (joined, 11)
            | none => (v, 5)
    else
      match simpleEscape? c with
      | some v => .ok (v, 1)
      | none => .error ⟨.invalidEscape, offset⟩

/-- The rest of a string from the offset `offset` on: its value and the offset behind its closing
quote. `opening` is the offset of its opening quote. -/
def readString (opening offset : Nat) : Text → Except Fault (Text × Nat)
  | [] => .error ⟨.unterminatedString, opening⟩
  | c :: s =>
    if c = '"' then .ok ([], offset + 1)
    else if c = '\\' then
      match readEscape opening offset s with
      | .error f => .error f
      | .ok (v, n) =>
        (readString opening (offset + 1 + n) (s.drop n)).map fun (t, stop) => (v :: t, stop)
    else if c.val < 0x20 then .error ⟨.controlCharacter, offset⟩
    else (readString opening (offset + 1) s).map fun (t, stop) => (c :: t, stop)
  termination_by s => s.length

/-- The digits at the head of a text. -/
def digits (s : Text) : Text := s.takeWhile (·.isAsciiDigit)

/-- The digits of the integer part of a number: a zero alone, or digits that start with no zero. -/
def integerDigits (s : Text) : Text := if Text.headIs s '0' then s.take 1 else digits s

/-- The digits of the fraction at the head of a text, behind its point. -/
def fractionDigits (s : Text) : Text := if Text.headIs s '.' then digits s.tail else []

/-- The exponent at the head of a text, without its letter: its sign and its digits. -/
def exponentPart (s : Text) : Text × Text :=
  if Text.headIs s 'e' || Text.headIs s 'E' then
    let sign := if Text.headIs s.tail '+' || Text.headIs s.tail '-' then s.tail.take 1 else []
    (sign, digits (s.drop (1 + sign.length)))
  else ([], [])

/-- The number at the head of a text, behind its sign: its value and its length. -/
def readNumber (negative : Bool) (s : Text) : Except Fault.Cause (Json × Nat) :=
  let whole := integerDigits s
  if whole.isEmpty then .error .valueExpected
  else
    let rest := s.drop whole.length
    let fraction := fractionDigits rest
    let rest := if fraction.isEmpty then rest else rest.drop (1 + fraction.length)
    let (sign, exponent) := exponentPart rest
    if fraction.isEmpty && exponent.isEmpty then
      match Text.readDecimal whole with
      | .error fault => .error (.tooManyDigits fault)
      | .ok n => .ok (.integer (if negative then -n else n), whole.length)
    else
      let e : Int := Text.decimalValue exponent
      let e := if Text.headIs sign '-' then -e else e
      let x : DecimalNumber := ⟨Text.decimalValue (whole ++ fraction), e - fraction.length⟩
      let value : Real :=
        match x.nearest? with
        | some b => .finite negative b
        | none => .infinite negative
      let fractionLength := if fraction.isEmpty then 0 else 1 + fraction.length
      let exponentLength := if exponent.isEmpty then 0 else 1 + sign.length + exponent.length
      .ok (.real value, whole.length + fractionLength + exponentLength)

/-- The words that are values. -/
def words : List (Text × Json) :=
  [("null", .null), ("true", .bool true), ("false", .bool false), ("NaN", .real .notANumber),
    ("Infinity", .real (.infinite false)), ("-Infinity", .real (.infinite true))]

/-- The word or the number at the head of `c :: s`: its value and its length. -/
def readScalar (c : CodePoint) (s : Text) : Except Fault.Cause (Json × Nat) :=
  match words.find? fun w => w.1.isPrefixOf (c :: s) with
  | some (w, v) => .ok (v, w.length)
  | none =>
    if c = '-' then (readNumber true s).map fun (v, n) => (v, n + 1) else readNumber false (c :: s)

/-- An array or object that is open: its items, latest first, or its members and the key of the one
that is being read. -/
inductive Frame
  | array (items : List Json)
  | object (members : List (Text × Json)) (key : Text)

/-- What comes next. -/
inductive Expected
  /-- A value, or the end of the array that has just been opened. -/
  | value (mayClose : Bool)
  /-- The key of a member, behind the given ones, or the end of the object. -/
  | key (members : List (Text × Json)) (mayClose : Bool)
  /-- The colon behind a key. -/
  | colon (members : List (Text × Json)) (key : Text)
  /-- What follows a value. -/
  | after (v : Json)

/-- What is wrong when something else comes. -/
def Expected.cause (stack : List Frame) : Expected → Fault.Cause
  | .value _ => .valueExpected
  | .key .. => .keyExpected
  | .colon .. => .colonExpected
  | .after _ => if stack.isEmpty then .extraData else .commaExpected

/-- Reads a value or the beginning of one. -/
def stepValue (mayClose : Bool) (stack : List Frame) (offset : Nat) (c : CodePoint) (s : Text) :
    Except Fault (Expected × List Frame × Nat) :=
  if c = '"' then
    (readString offset (offset + 1) s).map fun (t, stop) => (.after (.string t), stack, stop)
  else if c = '[' then .ok (.value true, .array [] :: stack, offset + 1)
  else if c = '\x7b' then .ok (.key [] true, stack, offset + 1)
  else
    match mayClose && c = ']', stack with
    | true, _ :: stack => .ok (.after (.array []), stack, offset + 1)
    | _, _ =>
      match readScalar c s with
      | .ok (v, n) => .ok (.after v, stack, offset + n)
      | .error cause => .error ⟨cause, offset⟩

/-- Reads what follows the value `v`. -/
def stepAfter (v : Json) (stack : List Frame) (offset : Nat) (c : CodePoint) :
    Except Fault (Expected × List Frame × Nat) :=
  match stack with
  | [] => .error ⟨.extraData, offset⟩
  | .array items :: stack =>
    if c = ']' then .ok (.after (.array (v :: items).reverse), stack, offset + 1)
    else if c = ',' then .ok (.value false, .array (v :: items) :: stack, offset + 1)
    else .error ⟨.commaExpected, offset⟩
  | .object members key :: stack =>
    if c = '\x7d' then .ok (.after (.object (insertMember key v members)), stack, offset + 1)
    else if c = ',' then .ok (.key (insertMember key v members) false, stack, offset + 1)
    else .error ⟨.commaExpected, offset⟩

/-- Reads the piece at the head of `c :: s`, which stands at the offset `offset`. Returns what comes
next, what is open then, and the offset behind the piece. -/
def step (expected : Expected) (stack : List Frame) (offset : Nat) (c : CodePoint) (s : Text) :
    Except Fault (Expected × List Frame × Nat) :=
  match expected with
  | .value mayClose => stepValue mayClose stack offset c s
  | .key members mayClose =>
    if c = '"' then
      (readString offset (offset + 1) s).map fun (t, stop) => (.colon members t, stack, stop)
    else if c = '\x7d' && mayClose then .ok (.after (.object members), stack, offset + 1)
    else .error ⟨.keyExpected, offset⟩
  | .colon members key =>
    if c = ':' then .ok (.value false, .object members key :: stack, offset + 1)
    else .error ⟨.colonExpected, offset⟩
  | .after v => stepAfter v stack offset c

/-- Reads on from the offset `offset` to the end of the text. -/
def parseFrom (expected : Expected) (stack : List Frame) (offset : Nat) :
    Text → Except Fault Json
  | [] =>
    match expected, stack with
    | .after v, [] => .ok v
    | expected, stack => .error ⟨expected.cause stack, offset⟩
  | c :: s =>
    if isSpace c then parseFrom expected stack (offset + 1) s
    else
      match step expected stack offset c s with
      | .error f => .error f
      | .ok (expected, stack, stop) => parseFrom expected stack stop (s.drop (stop - offset - 1))
  termination_by s => s.length

/-- The value that a text denotes. -/
def parse (s : Text) : Except Fault Json :=
  if Text.headIs s '\ufeff' then .error ⟨.byteOrderMark, 0⟩ else parseFrom (.value false) [] 0 s

end ScriptBundle.Json
