import ScriptBundle.Text.Digit

/-!
# Numbers in text

Decimal and hexadecimal notation of numbers, and the value of a run of decimal digits of any script. A
number that a user or a program wrote is read only up to a number of digits, `TooManyDigits.limit`.
-/

namespace ScriptBundle

/-- A number is not read because it has so many digits. -/
structure TooManyDigits where
  count : Nat
  deriving DecidableEq

/-- The largest number of digits of a number that is read, leading zeros included. -/
def TooManyDigits.limit : Nat := 4300

namespace Text

-- A power is that of the natural numbers, and not that of a monoid where one is known.
attribute [local instance (2000)] instPowNat

/-- A number in decimal notation. -/
def ofNat (n : Nat) : Text := (Nat.toDigits 10 n).map CodePoint.ofChar

/-- Decimal notation is made of ASCII digits. -/
theorem isAsciiDigit_of_mem_ofNat {n : Nat} {c : CodePoint} (h : c ∈ ofNat n) : c.isAsciiDigit := by
  obtain ⟨d, hd, rfl⟩ := List.mem_map.1 h
  have hdigit := Nat.isDigit_of_mem_toDigits (by decide) (by decide) hd
  simp only [Char.isDigit, Bool.and_eq_true, decide_eq_true_eq, ge_iff_le,
    UInt32.le_iff_toNat_le] at hdigit
  simp only [CodePoint.isAsciiDigit, Bool.and_eq_true, decide_eq_true_eq]
  exact hdigit

/-- An integer in decimal notation, with a sign only when it is negative. -/
def ofInt (i : Int) : Text := if i < 0 then "-" ++ ofNat i.natAbs else ofNat i.natAbs

/-- The last `width` hexadecimal digits of a number, in lower case. -/
def hex (width n : Nat) : Text :=
  (List.range width).reverse.map fun i => CodePoint.ofChar (Nat.digitChar (n / 16 ^ i % 16))

/-- The value of a sequence of decimal digits; other code points count as zero. -/
def decimalValue (s : Text) : Nat :=
  s.foldl (fun n c => 10 * n + c.decimalValue?.getD 0) 0

/-- The value of a sequence of decimal digits, unless it is too long. -/
def readDecimal (s : Text) : Except TooManyDigits Nat :=
  if TooManyDigits.limit < s.length then .error ⟨s.length⟩ else .ok (decimalValue s)

/-- The value of a sequence of hexadecimal digits, if it holds nothing else. -/
def hexValue? (s : Text) : Option Nat :=
  s.foldlM (fun n c => (16 * n + ·) <$> c.hexValue?) 0

/-- A text filled up with spaces on its left to at least the given width. -/
def padLeft (width : Nat) (s : Text) : Text :=
  List.replicate (width - s.length) (CodePoint.ofChar ' ') ++ s

end Text

/-- The message for a number of too many digits. -/
def TooManyDigits.message (f : TooManyDigits) : Text :=
  "Exceeds the limit (" ++ Text.ofNat limit ++ " digits) for integer string conversion: " ++
    ("value has " : Text) ++ Text.ofNat f.count ++
    (" digits; use sys.set_int_max_str_digits() to increase the limit" : Text)

end ScriptBundle
