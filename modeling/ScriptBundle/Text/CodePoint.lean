/-!
# Text as a sequence of code points

Sources, file names and messages are sequences of code points, and every offset, column and length
counts code points. A string literal of a source may denote a surrogate that stands alone, so a code
point here is any number below `0x110000`, surrogates included.

* `CodePoint`, with the coercion from characters;
* `Text`, with the coercion from strings;
* the predicates on ASCII digits and letters that the lexical rules share.
-/

namespace ScriptBundle

/-- A Unicode code point, a lone surrogate included. -/
structure CodePoint where
  val : Nat
  isLt : val < 0x110000 := by decide
  deriving DecidableEq

namespace CodePoint

@[ext] theorem ext {a b : CodePoint} (h : a.val = b.val) : a = b := by
  cases a; cases b; cases h; rfl

/-- Every character is a code point. -/
def ofChar (c : Char) : CodePoint where
  val := c.toNat
  isLt := by
    have h : c.toNat.isValidChar := c.valid
    rcases h with h | ⟨_, h⟩ <;> omega

instance : Coe Char CodePoint := ⟨ofChar⟩

instance : Inhabited CodePoint := ⟨⟨0, by decide⟩⟩

instance : LT CodePoint := ⟨fun a b => a.val < b.val⟩

instance : LE CodePoint := ⟨fun a b => a.val ≤ b.val⟩

instance (a b : CodePoint) : Decidable (a < b) := inferInstanceAs (Decidable (a.val < b.val))

instance (a b : CodePoint) : Decidable (a ≤ b) := inferInstanceAs (Decidable (a.val ≤ b.val))

/-- The code point with a given number; a number that is too large gives the replacement character. -/
def ofNat (n : Nat) : CodePoint :=
  if h : n < 0x110000 then ⟨n, h⟩ else ⟨0xFFFD, by decide⟩

theorem val_ofNat {n : Nat} (h : n < 0x110000) : (ofNat n).val = n := by simp [ofNat, h]

@[simp] theorem ofNat_val (c : CodePoint) : ofNat c.val = c := by
  apply ext
  exact val_ofNat c.isLt

/-- The first half of a UTF-16 surrogate pair. -/
def isHighSurrogate (c : CodePoint) : Bool := 0xD800 ≤ c.val && c.val < 0xDC00

/-- The second half of a UTF-16 surrogate pair. -/
def isLowSurrogate (c : CodePoint) : Bool := 0xDC00 ≤ c.val && c.val < 0xE000

/-- Half of a UTF-16 surrogate pair, which no encoded text holds on its own. -/
def isSurrogate (c : CodePoint) : Bool := 0xD800 ≤ c.val && c.val < 0xE000

/-- One of the digits `0` to `9`. -/
def isAsciiDigit (c : CodePoint) : Bool := 48 ≤ c.val && c.val ≤ 57

/-- One of the letters `A` to `Z` and `a` to `z`. -/
def isAsciiLetter (c : CodePoint) : Bool :=
  (65 ≤ c.val && c.val ≤ 90) || (97 ≤ c.val && c.val ≤ 122)

/-- The value of a hexadecimal digit of either case. -/
def hexValue? (c : CodePoint) : Option Nat :=
  if 48 ≤ c.val ∧ c.val ≤ 57 then some (c.val - 48)
  else if 97 ≤ c.val ∧ c.val ≤ 102 then some (c.val - 87)
  else if 65 ≤ c.val ∧ c.val ≤ 70 then some (c.val - 55)
  else none

/-- The character with this code point, if it is no surrogate. -/
def toChar? (c : CodePoint) : Option Char :=
  if h : c.val.isValidChar then some (Char.ofNatAux c.val h) else none

end CodePoint

/-- A sequence of code points. -/
abbrev Text := List CodePoint

namespace Text

instance : LawfulBEq Text := List.instLawfulBEq

/-- The code points of a string. -/
def ofString (s : String) : Text := s.toList.map CodePoint.ofChar

instance : Coe String Text := ⟨ofString⟩

/-- The code points of a literal are those of its characters. To read them off is much less work than to
decode the literal, when a source that is written as one is evaluated. -/
theorem ofString_ofList (cs : List Char) : ofString (String.ofList cs) = cs.map CodePoint.ofChar := by
  rw [ofString, String.toList_ofList]

/-- The line feed, which ends a line. -/
def lineFeed : Text := "\n"

/-- Whether the text starts with the given code point. -/
def headIs (s : Text) (c : CodePoint) : Bool := s.head? = some c

/-- `sep` between each two neighbours of `parts`. -/
def join (sep : Text) (parts : List Text) : Text := sep.intercalate parts

/-- The parts of a text between the occurrences of `sep`; one more than there are occurrences. -/
def splitAt (sep : CodePoint) : Text → List Text
  | [] => [[]]
  | c :: s =>
    if c = sep then [] :: splitAt sep s
    else
      match splitAt sep s with
      | [] => [[c]]
      | part :: parts => (c :: part) :: parts

/-- The number of line feeds. -/
def lineFeeds (s : Text) : Nat := List.count (CodePoint.ofChar '\n') s

/-- Whether `part` occurs in the text. -/
def occursIn (part : Text) : Text → Bool
  | [] => part.isEmpty
  | c :: s => part.isPrefixOf (c :: s) || occursIn part s

/-- Every occurrence of `old`, from the left and without overlaps, becomes `new`; a text in which
`old` is empty stays as it is. The count says how many code points of a found occurrence are still
to be dropped. -/
def replaceFrom (old new : Text) : Nat → Text → Text
  | _, [] => []
  | k + 1, _ :: s => replaceFrom old new k s
  | 0, c :: s =>
    if !old.isEmpty && old.isPrefixOf (c :: s) then
      new ++ replaceFrom old new (old.length - 1) s
    else c :: replaceFrom old new 0 s

/-- Every occurrence of `old`, from the left and without overlaps, becomes `new`. -/
def replace (old new s : Text) : Text := replaceFrom old new 0 s

end Text

end ScriptBundle
