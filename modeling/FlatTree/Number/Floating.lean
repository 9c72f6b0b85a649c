import FlatTree.Number.Word

/-!
Numbers in floating form: not-a-number, the two infinities, and the finite values
`± significand · 2 ^ exponent` with a sign of zero. The type holds every dyadic number, so integers
of any size compare exactly with fractions. `Floating.nearest` rounds a ratio to the nearest value
of the 64-bit binary format, a tie going to the even significand.
-/

namespace FlatTree

inductive Floating where
  | nan
  | infinite (negative : Bool)
  | finite (negative : Bool) (significand : Nat) (exponent : Int)
  deriving DecidableEq, Inhabited

namespace Floating

/-- Greatest exponent of a significand of 53 bits in the 64-bit format. -/
def maxExponent : Int := 971

/-- Least exponent of a significand in the 64-bit format. -/
def minExponent : Int := -1074

/-- The least significand of 53 bits. -/
def leastNormal : Nat := 0x10000000000000

/-- The whole number nearest to `num / den`, the even one of two that are as near. -/
def roundHalfEven (num den : Nat) : Nat :=
  let floor := num / den
  let twice := 2 * (num % den)
  if twice < den then floor
  else if twice > den then floor + 1
  else if floor % 2 = 0 then floor else floor + 1

/-- The ratio `num / den` divided by `2 ^ exponent`, as numerator and denominator. -/
def unscale (num den : Nat) (exponent : Int) : Nat × Nat :=
  (num * power 2 (-exponent), den * power 2 exponent)

/-- The exponent at which `num / den` has a significand of 53 bits, but no less than the least
exponent of the format. -/
def exponentOf (num den : Nat) : Int :=
  let guess : Int := (Nat.log2 num : Int) - Nat.log2 den
  let (scaledNum, scaledDen) := unscale num den guess
  let leading := if scaledNum < scaledDen then guess - 1 else guess
  max (leading - 52) minExponent

/-- The value of the 64-bit format nearest to `num / den`, for a positive `den`. -/
def nearest (negative : Bool) (num den : Nat) : Floating :=
  if num = 0 then .finite negative 0 minExponent
  else
    let exponent := exponentOf num den
    let (scaledNum, scaledDen) := unscale num den exponent
    let significand := roundHalfEven scaledNum scaledDen
    let (significand, exponent) :=
      if significand = 2 * leastNormal then (leastNormal, exponent + 1)
      else (significand, exponent)
    if exponent > maxExponent then .infinite negative
    else .finite negative significand exponent

/-- An integer, exactly. -/
def ofInt (n : Int) : Floating :=
  .finite (n < 0) n.natAbs 0

/-- The value of the 64-bit format nearest to an integer. -/
def nearestInt (n : Int) : Floating :=
  nearest (n < 0) n.natAbs 1

/-- The whole number that a finite value is of `2 ^ low`, for a `low` not above its exponent. -/
def aligned (low : Int) (negative : Bool) (significand : Nat) (exponent : Int) : Int :=
  let magnitude : Int := significand * power 2 (exponent - low)
  if negative then -magnitude else magnitude

/-- The order of the numbers; not-a-number is less than nothing and nothing is less than it. -/
def lt : Floating → Floating → Bool
  | .nan, _ | _, .nan => false
  | .infinite negative, .infinite other => negative && !other
  | .infinite negative, .finite .. => negative
  | .finite .., .infinite negative => !negative
  | .finite n s e, .finite n' s' e' =>
      aligned (min e e') n s e < aligned (min e e') n' s' e'

/-- Equality of the numbers: the two zeros are equal, and not-a-number equals nothing. -/
def eq : Floating → Floating → Bool
  | .nan, _ | _, .nan => false
  | .infinite negative, .infinite other => negative == other
  | .infinite _, .finite .. | .finite .., .infinite _ => false
  | .finite n s e, .finite n' s' e' =>
      aligned (min e e') n s e == aligned (min e e') n' s' e'

def le (x y : Floating) : Bool := x.lt y || x.eq y

/-- The difference, exactly. The difference of an infinity with itself is not a number. -/
def sub : Floating → Floating → Floating
  | .nan, _ | _, .nan => .nan
  | .infinite negative, .infinite other =>
      if negative = other then .nan else .infinite negative
  | .infinite negative, .finite .. => .infinite negative
  | .finite .., .infinite negative => .infinite !negative
  | .finite n s e, .finite n' s' e' =>
      let low := min e e'
      let difference := aligned low n s e - aligned low n' s' e'
      .finite (difference < 0) difference.natAbs low

/-- The product with a natural number, rounded to the nearest value of the format. An infinity times
nothing is not a number. -/
def times (count : Nat) : Floating → Floating
  | .nan => .nan
  | .infinite negative => if count = 0 then .nan else .infinite negative
  | .finite negative significand exponent =>
      nearest negative (significand * count * power 2 exponent) (power 2 (-exponent))

/-- Whether the number is zero, of either sign. -/
def isZero : Floating → Bool
  | .finite _ significand _ => significand == 0
  | _ => false

/-- The least natural number that is not below `significand · 2 ^ exponent`. -/
def ceil (significand : Nat) (exponent : Int) : Nat :=
  let (num, den) := unscale significand 1 (-exponent)
  (num + den - 1) / den

/-- The least natural number that is not below the number, if there is one. -/
def ceilNat? : Floating → Option Nat
  | .nan | .infinite false => none
  | .infinite true => some 0
  | .finite true _ _ => some 0
  | .finite false significand exponent => some (ceil significand exponent)

end Floating

end FlatTree
