import ScriptBundle.Number.Binary64
import ScriptBundle.Text.Decimal

/-!
# The shortest decimal that reads back

`shortest` gives the decimal of fewest digits that rounds to a given number of double precision; of
two that are equally short the one nearer to the number, and of two that are equally near the one with
an even last digit. `Binary64.text` writes it: positional from `0.0001` up to sixteen digits before the
point, and with an exponent of at least two digits otherwise.
-/

namespace ScriptBundle

-- A power is that of the natural numbers, and not that of a monoid where one is known.
attribute [local instance (2000)] instPowNat

/-- The decimal `digits * 10 ^ exponent`. -/
structure DecimalNumber where
  digits : Nat
  exponent : Int
  deriving DecidableEq

namespace DecimalNumber

/-- A decimal as a quotient. -/
def quotient (x : DecimalNumber) : Nat × Nat :=
  if 0 ≤ x.exponent then (x.digits * 10 ^ x.exponent.toNat, 1)
  else (x.digits, 10 ^ (-x.exponent).toNat)

/-- The magnitude beyond which a decimal rounds to zero or has no number. -/
def magnitudeLimit : Int := 400

/-- The number of double precision nearest to a decimal. Far beyond its range the answer is known
without the power of ten. -/
def nearest? (x : DecimalNumber) : Option Binary64 :=
  let magnitude : Int := x.exponent + (Nat.toDigits 10 x.digits).length
  if x.digits = 0 ∨ magnitude < -magnitudeLimit then some ⟨0, Binary64.minExponent⟩
  else if magnitudeLimit < magnitude then none
  else Binary64.nearest? x.quotient.1 x.quotient.2

end DecimalNumber

namespace Binary64

/-- The exponent of ten of the first digit of a positive quotient. -/
def firstDigitExponent (n d : Nat) : Int :=
  if d ≤ n then ((Nat.toDigits 10 (n / d)).length : Int) - 1
  else
    let e : Int := (Nat.toDigits 10 n).length - (Nat.toDigits 10 d).length
    if n * 10 ^ (-e).toNat < d then e - 1 else e

/-- The two neighbours of `n / d` among the decimals with the given exponent, the nearer one first. -/
def neighbours (n d : Nat) (exponent : Int) : List DecimalNumber :=
  let (n', d') := if 0 ≤ exponent then (n, d * 10 ^ exponent.toNat) else
    (n * 10 ^ (-exponent).toNat, d)
  let low : DecimalNumber := ⟨n' / d', exponent⟩
  let high : DecimalNumber := ⟨n' / d' + 1, exponent⟩
  if roundDiv n' d' = n' / d' then [low, high] else [high, low]

/-- The shortest decimal, of `digits` to 17 digits, that rounds to the positive number `x`. -/
def shortestFrom (x : Binary64) (digits : Nat) : DecimalNumber :=
  let (n, d) := x.quotient
  let exponent := firstDigitExponent n d - (digits - 1 : Nat)
  match (neighbours n d exponent).find? fun y => y.nearest? = some x with
  | some y => y
  | none => if 17 ≤ digits then ⟨0, 0⟩ else shortestFrom x (digits + 1)
  termination_by 17 - digits

/-- The shortest decimal that rounds to a positive number. -/
def shortest (x : Binary64) : DecimalNumber := shortestFrom x 1

/-- The decimal digits of a number without the zeros at the end. -/
def significant (n : Nat) : Text :=
  ((Text.ofNat n).reverse.dropWhile fun c => c = CodePoint.ofChar '0').reverse

/-- A number in decimal notation. `point` is the place of the decimal point behind the first of the
significant digits. -/
def text (x : Binary64) : Text :=
  if x.mantissa = 0 then "0.0"
  else
    let y := shortest x
    let digits := significant y.digits
    let point : Int := y.exponent + (Text.ofNat y.digits).length
    if -4 < point ∧ point ≤ 16 then
      if point ≤ 0 then "0." ++ List.replicate (-point).toNat (CodePoint.ofChar '0') ++ digits
      else
        let zeros := List.replicate (point.toNat - digits.length) (CodePoint.ofChar '0')
        let fraction : Text := if digits.length ≤ point.toNat then "0" else digits.drop point.toNat
        digits.take point.toNat ++ zeros ++ "." ++ fraction
    else
      let exponent := point - 1
      let mark : Text := if exponent < 0 then "e-" else "e+"
      let width := Text.ofNat exponent.natAbs
      let padded : Text := if width.length < 2 then "0" ++ width else width
      let fraction : Text := if digits.length = 1 then [] else "." ++ digits.drop 1
      digits.take 1 ++ fraction ++ mark ++ padded

end Binary64

end ScriptBundle
