/-!
# Numbers in double precision

A number of the IEEE format `binary64`, without its sign, is `mantissa * 2 ^ exponent` with a
mantissa of at most 53 bits. `Binary64.nearest?` rounds a quotient of natural numbers to it, a tie to
the even mantissa; a quotient that is too large has no number.
-/

namespace ScriptBundle

/-- A finite number of the format `binary64`, without its sign. -/
structure Binary64 where
  mantissa : Nat
  exponent : Int
  deriving DecidableEq

namespace Binary64

-- A power is that of the natural numbers, and not that of a monoid where one is known.
attribute [local instance (2000)] instPowNat

/-- The smallest exponent. -/
def minExponent : Int := -1074

/-- The largest exponent. -/
def maxExponent : Int := 971

/-- The quotient of two numbers rounded to the nearest integer, a tie to the even one. -/
def roundDiv (n d : Nat) : Nat :=
  let q := n / d
  let r := n % d
  if 2 * r < d then q else if d < 2 * r then q + 1 else q + q % 2

/-- The quotient `n / (d * 2 ^ e)` as numerator and denominator. -/
def scaled (n d : Nat) (e : Int) : Nat × Nat :=
  if 0 ≤ e then (n, d * 2 ^ e.toNat) else (n * 2 ^ (-e).toNat, d)

/-- The exponent of the last bit that is kept of `n / d`: with it the quotient has 53 bits before the
point, or fewer if the exponent is the smallest one. -/
def unitExponent (n d : Nat) : Int :=
  let e : Int := n.log2 - d.log2 - 52
  let (n', d') := scaled n d e
  max minExponent (if n' < d' * 2 ^ (52 : Nat) then e - 1 else e)

/-- The number nearest to `n / d`, where `d` is positive. -/
def nearest? (n d : Nat) : Option Binary64 :=
  if n = 0 then some ⟨0, minExponent⟩
  else
    let e := unitExponent n d
    let (n', d') := scaled n d e
    let m := roundDiv n' d'
    let x : Binary64 := if m = 2 ^ (53 : Nat) then ⟨2 ^ (52 : Nat), e + 1⟩ else ⟨m, e⟩
    if maxExponent < x.exponent then none else some x

/-- A number as a quotient. -/
def quotient (x : Binary64) : Nat × Nat :=
  if 0 ≤ x.exponent then (x.mantissa * 2 ^ x.exponent.toNat, 1)
  else (x.mantissa, 2 ^ (-x.exponent).toNat)

end Binary64

end ScriptBundle
