import ScriptBundle.Text.RunSet

/-!
# Blank code points

The code points that count as white space when a line is trimmed: separators of general category
`Zs` and those of the bidirectional classes `WS`, `B` and `S`, as of Unicode 14.
-/

namespace ScriptBundle

/-- The runs of white space. -/
def CodePoint.blankRuns : RunSet where
  boundaries := [
    0x9, 0xe, 0x1c, 0x21, 0x85, 0x86, 0xa0, 0xa1, 0x1680, 0x1681, 0x2000, 0x200b, 0x2028, 0x202a,
    0x202f, 0x2030, 0x205f, 0x2060, 0x3000, 0x3001]

/-- White space of any kind. -/
def CodePoint.isBlank (c : CodePoint) : Bool := CodePoint.blankRuns.contains c

/-- Whether every code point is white space. -/
def Text.isBlank (s : Text) : Bool := s.all CodePoint.isBlank

/-- The text without the white space at its end. -/
def Text.trimEnd (s : Text) : Text := (s.reverse.dropWhile CodePoint.isBlank).reverse

/-- The text without the white space at both ends. -/
def Text.trim (s : Text) : Text := Text.trimEnd (s.dropWhile CodePoint.isBlank)

end ScriptBundle
