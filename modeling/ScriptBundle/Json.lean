import ScriptBundle.Number.Shortest
import ScriptBundle.Text.Quoted

/-!
# JSON values

The values of a package manifest. Besides what the format itself has, a number may be infinite or not
a number at all. `Json.display` writes a value the way messages show it, and `Json.isTruthy` tells
whether it counts as present.
-/

namespace ScriptBundle

/-- A number with a fraction or an exponent, or one that is not finite. -/
inductive Json.Real
  | finite (negative : Bool) (magnitude : Binary64)
  | infinite (negative : Bool)
  | notANumber
  deriving DecidableEq

/-- A JSON value. The members of an object stand in the order of their first occurrence. -/
inductive Json
  | null
  | bool (b : Bool)
  | integer (i : Int)
  | real (r : Json.Real)
  | string (s : Text)
  | array (items : List Json)
  | object (members : List (Text × Json))

namespace Json

/-- A sign in front of a text. -/
def signed (negative : Bool) (s : Text) : Text := if negative then "-" ++ s else s

/-- The text of a number. -/
def Real.text : Real → Text
  | .finite negative x => signed negative x.text
  | .infinite negative => signed negative "inf"
  | .notANumber => "nan"

mutual

/-- A value as messages show it. -/
def display : Json → Text
  | .null => "None"
  | .bool true => "True"
  | .bool false => "False"
  | .integer i => Text.ofInt i
  | .real r => r.text
  | .string s => s.quoted
  | .array items => "[" ++ Text.join ", " (displayItems items) ++ "]"
  | .object members => "\x7b" ++ Text.join ", " (displayMembers members) ++ "\x7d"

/-- The items of an array as messages show them. -/
def displayItems : List Json → List Text
  | [] => []
  | v :: vs => display v :: displayItems vs

/-- The members of an object as messages show them. -/
def displayMembers : List (Text × Json) → List Text
  | [] => []
  | (k, v) :: ms => (k.quoted ++ ": " ++ display v) :: displayMembers ms

end

/-- Whether a value counts as present: it is neither null nor false, zero or empty. -/
def isTruthy : Json → Bool
  | .null => false
  | .bool b => b
  | .integer i => i ≠ 0
  | .real (.finite _ x) => x.mantissa ≠ 0
  | .real _ => true
  | .string s => !s.isEmpty
  | .array items => !items.isEmpty
  | .object members => !members.isEmpty

/-- The members of an object with one more; a key that is there already takes the new value. -/
def insertMember (key : Text) (v : Json) : List (Text × Json) → List (Text × Json)
  | [] => [(key, v)]
  | (k, w) :: ms => if k = key then (k, v) :: ms else (k, w) :: insertMember key v ms

end Json

end ScriptBundle
