import ScriptBundle.Text.RunSet

/-!
# Digits of all scripts

A decimal digit (general category `Nd`, Unicode 14) stands for a number from 0 to 9 in positional
notation; every run of the table starts with a zero and goes on with whole decades. A digit in the
wider sense is also a superscript, a subscript, a circled or otherwise decorated digit.
-/

namespace ScriptBundle

/-- The runs of decimal digits; each is a sequence of decades from 0 to 9. -/
def CodePoint.decimalRuns : RunSet where
  boundaries := [
    0x30, 0x3a, 0x660, 0x66a, 0x6f0, 0x6fa, 0x7c0, 0x7ca, 0x966, 0x970, 0x9e6, 0x9f0, 0xa66,
    0xa70, 0xae6, 0xaf0, 0xb66, 0xb70, 0xbe6, 0xbf0, 0xc66, 0xc70, 0xce6, 0xcf0, 0xd66, 0xd70,
    0xde6, 0xdf0, 0xe50, 0xe5a, 0xed0, 0xeda, 0xf20, 0xf2a, 0x1040, 0x104a, 0x1090, 0x109a,
    0x17e0, 0x17ea, 0x1810, 0x181a, 0x1946, 0x1950, 0x19d0, 0x19da, 0x1a80, 0x1a8a, 0x1a90,
    0x1a9a, 0x1b50, 0x1b5a, 0x1bb0, 0x1bba, 0x1c40, 0x1c4a, 0x1c50, 0x1c5a, 0xa620, 0xa62a,
    0xa8d0, 0xa8da, 0xa900, 0xa90a, 0xa9d0, 0xa9da, 0xa9f0, 0xa9fa, 0xaa50, 0xaa5a, 0xabf0,
    0xabfa, 0xff10, 0xff1a, 0x104a0, 0x104aa, 0x10d30, 0x10d3a, 0x11066, 0x11070, 0x110f0,
    0x110fa, 0x11136, 0x11140, 0x111d0, 0x111da, 0x112f0, 0x112fa, 0x11450, 0x1145a, 0x114d0,
    0x114da, 0x11650, 0x1165a, 0x116c0, 0x116ca, 0x11730, 0x1173a, 0x118e0, 0x118ea, 0x11950,
    0x1195a, 0x11c50, 0x11c5a, 0x11d50, 0x11d5a, 0x11da0, 0x11daa, 0x16a60, 0x16a6a, 0x16ac0,
    0x16aca, 0x16b50, 0x16b5a, 0x1d7ce, 0x1d800, 0x1e140, 0x1e14a, 0x1e2f0, 0x1e2fa, 0x1e950,
    0x1e95a, 0x1fbf0, 0x1fbfa]

/-- The runs of digits that take no part in positional notation, such as superscripts. -/
def CodePoint.decoratedDigitRuns : RunSet where
  boundaries := [
    0xb2, 0xb4, 0xb9, 0xba, 0x1369, 0x1372, 0x19da, 0x19db, 0x2070, 0x2071, 0x2074, 0x207a,
    0x2080, 0x208a, 0x2460, 0x2469, 0x2474, 0x247d, 0x2488, 0x2491, 0x24ea, 0x24eb, 0x24f5,
    0x24fe, 0x24ff, 0x2500, 0x2776, 0x277f, 0x2780, 0x2789, 0x278a, 0x2793, 0x10a40, 0x10a44,
    0x10e60, 0x10e69, 0x11052, 0x1105b, 0x1f100, 0x1f10b]

/-- A decimal digit of any script. -/
def CodePoint.isDecimal (c : CodePoint) : Bool :=
  if c.val < 0x80 then c.isAsciiDigit else CodePoint.decimalRuns.contains c

/-- The last even-indexed boundary at or below `n`: the start of the run that holds it. -/
def CodePoint.runStart (n : Nat) : List Nat → Nat
  | a :: b :: rest => if n < b then a else CodePoint.runStart n rest
  | _ => 0

/-- The value of a decimal digit. -/
def CodePoint.decimalValue? (c : CodePoint) : Option Nat :=
  if c.isDecimal then some ((c.val - CodePoint.runStart c.val CodePoint.decimalRuns.boundaries) % 10)
  else none

/-- A digit of any script, decorated ones included. -/
def CodePoint.isDigit (c : CodePoint) : Bool :=
  if c.val < 0x80 then c.isAsciiDigit
  else CodePoint.decimalRuns.contains c || CodePoint.decoratedDigitRuns.contains c

end ScriptBundle
