import ScriptBundle.Text.CodePoint

/-!
# Lines

Two notions of a line meet here. A file that is read as text keeps only the line feed: `CR LF` and a
`CR` of its own become one (`unifyLineEnds`). A report is cut at every line boundary that Unicode
knows (`boundaryLines`), and a boundary at the end of the text opens no further line.
-/

namespace ScriptBundle

/-- A code point that ends a line of a report: line feed, carriage return, vertical tab, form feed,
the three upper separators of ASCII, next line, and the line and paragraph separators. -/
def CodePoint.isLineBoundary (c : CodePoint) : Bool :=
  (10 ≤ c.val && c.val ≤ 13) || (0x1C ≤ c.val && c.val ≤ 0x1E) || c.val = 0x85 ||
    c.val = 0x2028 || c.val = 0x2029

namespace Text

/-- `unifyLineEnds` after the line ends of `done` (latest first) have been unified. -/
def unifyLineEndsAfter (done : Text) (afterReturn : Bool) : Text → Text
  | [] => done.reverse
  | c :: s =>
    if c = '\r' then unifyLineEndsAfter (CodePoint.ofChar '\n' :: done) true s
    else if c = '\n' && afterReturn then unifyLineEndsAfter done false s
    else unifyLineEndsAfter (c :: done) false s

/-- Every `CR LF` and every other `CR` becomes a line feed. -/
def unifyLineEnds (s : Text) : Text := unifyLineEndsAfter [] false s

/-- `boundaryLines` after the lines `done` (latest first) and the beginning `line` (last code point
first) of the next one. -/
def boundaryLinesAfter (done : List Text) (line : Text) (afterReturn : Bool) : Text → List Text
  | [] => (if line.isEmpty then done else line.reverse :: done).reverse
  | c :: s =>
    if c = '\n' && afterReturn then boundaryLinesAfter done line false s
    else if c.isLineBoundary then boundaryLinesAfter (line.reverse :: done) [] (c = '\r') s
    else boundaryLinesAfter done (c :: line) false s

/-- The lines of a report, without their boundaries; `CR LF` is one boundary. -/
def boundaryLines (s : Text) : List Text := boundaryLinesAfter [] [] false s

end Text

end ScriptBundle
