import ScriptBundle.Text.Decimal

/-!
# UTF-8

Strict decoding of a byte sequence and encoding of a text. A byte sequence that is no UTF-8 is
refused with the offending bytes and the reason; a text with a lone surrogate cannot be encoded. The
name of a file may hold surrogates that stand for bytes, and only those.

* `Utf8.decode`, with `Utf8.Fault` and its message;
* `Utf8.encode`, with `Utf8.Unencodable` and its message;
* `Utf8.unencodableName?`: why a text cannot be the name of a file.
-/

namespace ScriptBundle.Utf8

-- A power is that of the natural numbers, and not that of a monoid where one is known.
attribute [local instance (2000)] instPowNat

/-- Why a byte sequence is not UTF-8. -/
inductive Reason
  | invalidStart
  | invalidContinuation
  | unexpectedEnd
  deriving DecidableEq

/-- The words for a reason. -/
def Reason.message : Reason → Text
  | .invalidStart => "invalid start byte"
  | .invalidContinuation => "invalid continuation byte"
  | .unexpectedEnd => "unexpected end of data"

/-- The first bytes of a sequence that cannot be decoded: their offset, the first of them, how many
they are, and the reason. -/
structure Fault where
  offset : Nat
  byte : UInt8
  count : Nat
  reason : Reason
  deriving DecidableEq

/-- The message names a single byte by its value and several by their first and last offset. -/
def Fault.message (f : Fault) : Text :=
  let place : Text :=
    if f.count = 1 then
      "byte 0x" ++ Text.hex 2 f.byte.toNat ++ " in position " ++ Text.ofNat f.offset
    else
      "bytes in position " ++ Text.ofNat f.offset ++ "-" ++ Text.ofNat (f.offset + f.count - 1)
  "'utf-8' codec can't decode " ++ place ++ ": " ++ f.reason.message

/-- What the first byte of a sequence promises: the number of bytes that follow it, and the lowest
and highest value of the second. -/
structure Lead where
  following : Nat
  low : Nat
  high : Nat

/-- The promise of a first byte outside ASCII; bytes that start no sequence promise nothing. -/
def Lead.ofByte? (b : Nat) : Option Lead :=
  if b < 0xC2 then none
  else if b < 0xE0 then some ⟨1, 0x80, 0xBF⟩
  else if b = 0xE0 then some ⟨2, 0xA0, 0xBF⟩
  else if b = 0xED then some ⟨2, 0x80, 0x9F⟩
  else if b < 0xF0 then some ⟨2, 0x80, 0xBF⟩
  else if b = 0xF0 then some ⟨3, 0x90, 0xBF⟩
  else if b < 0xF4 then some ⟨3, 0x80, 0xBF⟩
  else if b = 0xF4 then some ⟨3, 0x80, 0x8F⟩
  else none

/-- The bits of the code point that the first byte of a sequence carries. -/
def Lead.bits (l : Lead) (b : Nat) : Nat := b % 2 ^ (6 - l.following)

/-- Reads `following` further bytes of a sequence whose first bytes, `seen` of them, carry the bits
`value`. The bounds are those of the next byte. -/
def continuation (following low high seen value : Nat) :
    List UInt8 → Except (Reason × Nat) Nat :=
  match following with
  | 0 => fun _ => .ok value
  | k + 1 => fun
    | [] => .error (.unexpectedEnd, seen)
    | b :: bs =>
      if low ≤ b.toNat ∧ b.toNat ≤ high then
        continuation k 0x80 0xBF (seen + 1) (64 * value + b.toNat % 64) bs
      else .error (.invalidContinuation, seen)

/-- The code point at the head of a byte sequence, and the number of further bytes it takes. -/
def decodePoint (b : UInt8) (bs : List UInt8) : Except (Reason × Nat) (CodePoint × Nat) :=
  if b.toNat < 0x80 then .ok (CodePoint.ofNat b.toNat, 0)
  else
    match Lead.ofByte? b.toNat with
    | none => .error (.invalidStart, 1)
    | some l =>
      (continuation l.following l.low l.high 1 (l.bits b.toNat) bs).map fun v =>
        (CodePoint.ofNat v, l.following)

/-- `decode` after the text `done` (last code point first) has been read from `offset` bytes, with
`skip` bytes left of the sequence that was read last. -/
def decodeAfter (done : Text) (offset skip : Nat) : List UInt8 → Except Fault Text
  | [] => .ok done.reverse
  | b :: bs =>
    match skip with
    | k + 1 => decodeAfter done (offset + 1) k bs
    | 0 =>
      match decodePoint b bs with
      | .ok (c, k) => decodeAfter (c :: done) (offset + 1) k bs
      | .error (.unexpectedEnd, _) => .error ⟨offset, b, bs.length + 1, .unexpectedEnd⟩
      | .error (reason, n) => .error ⟨offset, b, n, reason⟩

/-- The text that a byte sequence encodes. -/
def decode (bytes : List UInt8) : Except Fault Text := decodeAfter [] 0 0 bytes

/-- The bytes of one code point; a surrogate has none. -/
def encodePoint (c : CodePoint) : List UInt8 :=
  let n := c.val
  let tail (k : Nat) : UInt8 := UInt8.ofNat (0x80 + n / 64 ^ k % 64)
  if c.isSurrogate then []
  else if n < 0x80 then [UInt8.ofNat n]
  else if n < 0x800 then [UInt8.ofNat (0xC0 + n / 64), tail 0]
  else if n < 0x10000 then [UInt8.ofNat (0xE0 + n / 4096), tail 1, tail 0]
  else [UInt8.ofNat (0xF0 + n / 262144), tail 2, tail 1, tail 0]

/-- The surrogates by which a text cannot be encoded: the offset of the first, the first itself, and
how many stand there in a row. -/
structure Unencodable where
  offset : Nat
  point : CodePoint
  count : Nat
  deriving DecidableEq

/-- The message names a single surrogate by its value and several by their offsets. -/
def Unencodable.message (u : Unencodable) : Text :=
  let place : Text :=
    if u.count = 1 then
      "character '\\u" ++ Text.hex 4 u.point.val ++ "' in position " ++ Text.ofNat u.offset
    else
      "characters in position " ++ Text.ofNat u.offset ++ "-" ++ Text.ofNat (u.offset + u.count - 1)
  "'utf-8' codec can't encode " ++ place ++ ": surrogates not allowed"

/-- The first code point of a text that is `bad`, with the surrogates behind it. -/
def firstBad? (bad : CodePoint → Bool) (s : Text) : Option Unencodable :=
  match s.dropWhile (!bad ·) with
  | [] => none
  | c :: rest =>
    some ⟨(s.takeWhile (!bad ·)).length, c, 1 + (rest.takeWhile (·.isSurrogate)).length⟩

/-- The first run of surrogates of a text, if it has one. -/
def unencodable? (s : Text) : Option Unencodable := firstBad? (·.isSurrogate) s

/-- Whether a code point stands for a byte of a file name that is no UTF-8. -/
def isEscapedByte (c : CodePoint) : Bool := 0xDC80 ≤ c.val && c.val ≤ 0xDCFF

/-- The first surrogates of a text that the name of a file cannot hold, if there are any. -/
def unencodableName? (s : Text) : Option Unencodable :=
  firstBad? (fun c => c.isSurrogate && !isEscapedByte c) s

/-- The bytes of a text, unless it holds a surrogate. -/
def encode (s : Text) : Except Unencodable (List UInt8) :=
  match unencodable? s with
  | some u => .error u
  | none => .ok (s.flatMap encodePoint)

end ScriptBundle.Utf8
