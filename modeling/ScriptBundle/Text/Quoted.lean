import ScriptBundle.Text.Decimal
import ScriptBundle.Text.Printable

/-!
# Quoted text for messages

A text that a message shows is put between single quotes, or between double quotes when it holds a
single quote and no double quote. Inside, the quote, the backslash and the three usual control
characters are escaped by a backslash, and what is not printable is written by its number in two,
four or eight hexadecimal digits.
-/

namespace ScriptBundle.Text

/-- One code point between quotes of the given kind. -/
def quotedPoint (quote c : CodePoint) : Text :=
  if c = quote || c = '\\' then ['\\', c]
  else if c = '\t' then "\\t"
  else if c = '\n' then "\\n"
  else if c = '\r' then "\\r"
  else if c.isPrintable then [c]
  else if c.val < 0x100 then "\\x" ++ hex 2 c.val
  else if c.val < 0x10000 then "\\u" ++ hex 4 c.val
  else "\\U" ++ hex 8 c.val

/-- The quote that a message puts around a text. -/
def quoteFor (s : Text) : CodePoint :=
  if CodePoint.ofChar '\'' ∈ s ∧ CodePoint.ofChar '"' ∉ s then '"' else '\''

/-- A text between quotes, on one line and without unprintable code points. -/
def quoted (s : Text) : Text :=
  [quoteFor s] ++ s.flatMap (quotedPoint (quoteFor s)) ++ [quoteFor s]

end ScriptBundle.Text
