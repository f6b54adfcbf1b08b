import ScriptBundle.Text.Decimal

/-!
# String literals

The text of a string token keeps its quotes and escapes. `decode` gives the value that it denotes
and `encode` writes a value as a double-quoted literal of ASCII characters only. Half a surrogate
pair can be escaped on its own; two halves that meet become one code point.

* `EscapeFault`: why a literal has no value;
* `StringLiteral.decode`, `decodeBody`: the value of a literal, and of what stands between quotes;
* `StringLiteral.encode`: the literal of a value.
-/

namespace ScriptBundle

/-- Why a string literal has no value. -/
inductive EscapeFault
  /-- The text does not stand between two equal quotes. -/
  | notALiteral (text : Text)
  /-- A backslash ends the text. -/
  | danglingBackslash
  /-- `\x` without two hexadecimal digits. -/
  | invalidHex
  /-- `\u` without four hexadecimal digits, or `\u{` without digits up to a closing brace. -/
  | invalidUnicode (braced : Bool)
  /-- `\u{…}` with a number that is no code point. -/
  | outOfRange
  /-- A digit behind a backslash, which older scripts read as an octal number. -/
  | octal (digit : CodePoint)
  deriving DecidableEq

namespace EscapeFault

/-- The short name of a fault. -/
def code : EscapeFault → Text
  | .notALiteral _ => "not_a_string_literal"
  | .danglingBackslash => "dangling_backslash"
  | .invalidHex => "invalid_hex_escape"
  | .invalidUnicode _ => "invalid_unicode_escape"
  | .outOfRange => "unicode_out_of_range"
  | .octal _ => "octal_escape"

/-- The text at fault, as far as the escape has been read. -/
def details : EscapeFault → Text
  | .notALiteral text => text
  | .danglingBackslash => []
  | .invalidHex => "\\x"
  | .invalidUnicode false => "\\u"
  | .invalidUnicode true => "\\u\x7b"
  | .outOfRange => "\\u\x7b"
  | .octal digit => ['\\', digit]

end EscapeFault

namespace StringLiteral

/-- The control character that a letter behind a backslash stands for. -/
def controlEscape? (c : CodePoint) : Option CodePoint :=
  if c = 'b' then some '\x08'
  else if c = 'f' then some '\x0c'
  else if c = 'n' then some '\n'
  else if c = 'r' then some '\r'
  else if c = 't' then some '\t'
  else if c = 'v' then some '\x0b'
  else none

/-- A line break that a backslash continues a literal over. -/
def isLineTerminator (c : CodePoint) : Bool :=
  c = '\n' || c = '\r' || c = '\u2028' || c = '\u2029'

/-- The code point written by exactly `width` hexadecimal digits at the head of `s`. -/
def fixedHex? (width : Nat) (s : Text) : Option CodePoint :=
  if s.length < width then none else (Text.hexValue? (s.take width)).map CodePoint.ofNat

/-- The escape `\u{…}`, of which `s` is what follows the opening brace: its code point, and the
number of digits. -/
def bracedHex (s : Text) : Except EscapeFault (CodePoint × Nat) :=
  let digits := s.takeWhile fun c => c ≠ CodePoint.ofChar '}'
  if digits.isEmpty || digits.length = s.length then .error (.invalidUnicode true)
  else
    match Text.hexValue? digits with
    | none => .error (.invalidUnicode true)
    | some v => if h : v < 0x110000 then .ok (⟨v, h⟩, digits.length) else .error .outOfRange

/-- What the escape at the head of `c :: s`, behind its backslash, stands for: a code point or, over
a line break, nothing. The number says how far the escape goes on behind `c`. -/
def escape (c : CodePoint) (s : Text) : Except EscapeFault (Option CodePoint × Nat) :=
  if let some v := controlEscape? c then .ok (some v, 0)
  else if isLineTerminator c then
    .ok (none, if c = '\r' && Text.headIs s '\n' then 1 else 0)
  else if c = '0' && !s.head?.any (·.isDigit) then .ok (some '\x00', 0)
  else if c = 'x' then
    match fixedHex? 2 s with
    | some v => .ok (some v, 2)
    | none => .error .invalidHex
  else if c = 'u' then
    if Text.headIs s '{' then (bracedHex s.tail).map fun (v, n) => (some v, n + 2)
    else
      match fixedHex? 4 s with
      | some v => .ok (some v, 4)
      | none => .error (.invalidUnicode false)
  else if c.isDigit then .error (.octal c)
  else .ok (some c, 0)

/-- The code points that a text between quotes stands for, before the halves of surrogate pairs are
joined. -/
def unescape : Text → Except EscapeFault Text
  | [] => .ok []
  | c :: s =>
    if c = '\\' then
      match s with
      | [] => .error .danglingBackslash
      | d :: s =>
        match escape d s with
        | .error f => .error f
        | .ok (v, n) => (unescape (s.drop n)).map (v.toList ++ ·)
    else (unescape s).map (c :: ·)
  termination_by s => s.length

/-- The code point that two halves of a surrogate pair stand for. -/
def joined (high low : CodePoint) : CodePoint :=
  CodePoint.ofNat (0x10000 + (high.val - 0xD800) * 0x400 + (low.val - 0xDC00))

/-- Joins every high surrogate with a low one that follows it. -/
def joinPairs : Text → Text
  | a :: b :: s =>
    if a.isHighSurrogate && b.isLowSurrogate then joined a b :: joinPairs s
    else a :: joinPairs (b :: s)
  | s => s

/-- The value of a text between quotes. -/
def decodeBody (s : Text) : Except EscapeFault Text := (unescape s).map joinPairs

/-- The value of a string literal. -/
def decode (s : Text) : Except EscapeFault Text :=
  match s with
  | q :: rest =>
    if (q = '\'' || q = '"') && rest.getLast? = some q then decodeBody rest.dropLast
    else .error (.notALiteral s)
  | [] => .error (.notALiteral s)

/-- The escape of a UTF-16 unit by its number. -/
def unitEscape (n : Nat) : Text := "\\u" ++ Text.hex 4 n

/-- A code point inside a double-quoted literal. -/
def encodePoint (c : CodePoint) : Text :=
  if c = '"' then "\\\""
  else if c = '\\' then "\\\\"
  else if c = '\n' then "\\n"
  else if c = '\r' then "\\r"
  else if c = '\t' then "\\t"
  else if c = '\x0c' then "\\f"
  else if c = '\x08' then "\\b"
  else if 0x20 ≤ c.val ∧ c.val < 0x7F then [c]
  else if c.val < 0x10000 then unitEscape c.val
  else unitEscape (0xD800 + (c.val - 0x10000) / 0x400) ++
    unitEscape (0xDC00 + (c.val - 0x10000) % 0x400)

/-- The double-quoted literal of a value. -/
def encode (s : Text) : Text := "\"" ++ s.flatMap encodePoint ++ "\""

end StringLiteral

end ScriptBundle
