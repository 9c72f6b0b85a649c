import FlatTree.Number.Floating

/-!
Decimal texts of floating numbers. The digits are the fewest that read back as the same value of
the 64-bit binary format, and of those the ones nearest to it; `Layout` says where a text turns
from positional to scientific.
-/

namespace FlatTree

/-- The decimal number `digits · 10 ^ exponent`. -/
structure Decimal where
  digits : Nat
  exponent : Int
  deriving DecidableEq

namespace Floating

/-- How many decimal digits a natural number has. -/
def digitCount (n : Nat) : Nat := (Nat.toDigits 10 n).length

/-- The place of the leading digit: `value < 10 ^ place`, and no smaller place will do. Scaling by
`10 ^ 400` makes every value of the format greater than one. -/
def leadingPlace (num den : Nat) : Int :=
  (digitCount (num * power 10 400 / den) : Int) - 400

/-- The ends of the interval of numbers that round to `significand · 2 ^ exponent`, in units of
`2 ^ (exponent - 2)`. Below a power of two the format is twice as fine. -/
def roundingInterval (significand : Nat) (exponent : Int) : Nat × Nat :=
  let below := if significand = leastNormal ∧ exponent > minExponent then 1 else 2
  (4 * significand - below, 4 * significand + 2)

/-- The decimal with last place `10 ^ place` that is nearest to the value and rounds to it. Only
the two neighbours of the value in that place come into question; of two that are as near, the one
with the even digit is taken. -/
def inPlace? (significand : Nat) (exponent place : Int) : Option Decimal :=
  let (low, high) := roundingInterval significand exponent
  let unit := power 10 place * power 2 (2 - exponent)
  let scale := power 2 (exponent - 2) * power 10 (-place)
  let value := 4 * significand * scale
  let rounds (digits : Nat) : Bool :=
    if significand % 2 = 0 then low * scale ≤ digits * unit && digits * unit ≤ high * scale
    else low * scale < digits * unit && digits * unit < high * scale
  let nearest := roundHalfEven value unit
  let floor := value / unit
  [nearest, floor, floor + 1].find? rounds |>.map (⟨·, place⟩)

/-- The shortest decimal that reads back as `significand · 2 ^ exponent`. Seventeen digits always
suffice. -/
def shortest (significand : Nat) (exponent : Int) : Decimal :=
  let (num, den) := unscale significand 1 (-exponent)
  let place := leadingPlace num den
  let found := (List.range 17).findSome? fun (count : Nat) =>
    inPlace? significand exponent (place - (count + 1))
  found.getD ⟨num / den, 0⟩

end Floating

/-- Where decimal texts change their form. -/
structure Layout where
  /-- Least power of ten of a leading digit that is still written positionally. -/
  lowest : Int
  /-- Greatest power of ten of a leading digit that is still written positionally. -/
  highest : Int
  /-- Least number of digits of a written exponent. -/
  exponentDigits : Nat

/-- Numbers from `0.0001` up to, but not including, `1e16` are written positionally, and exponents
have at least two digits. -/
def Layout.standard : Layout := ⟨-4, 15, 2⟩

namespace Decimal

/-- Digits with the point at `place` from their front. A whole number keeps one zero after it. -/
def positional (digits : List Char) (place : Int) : List Char :=
  if place ≤ 0 then
    '0' :: '.' :: (List.replicate (-place).toNat '0' ++ digits)
  else
    let whole := digits.take place.toNat
    let fraction := digits.drop place.toNat
    whole ++ List.replicate (place.toNat - whole.length) '0' ++
      '.' :: (if fraction = [] then ['0'] else fraction)

/-- One digit before the point, the others behind it, and the power of ten with its sign. -/
def scientific (exponentDigits : Nat) (digits : List Char) (power : Int) : List Char :=
  let exponent := Nat.toDigits 10 power.natAbs
  let fraction := digits.drop 1
  digits.take 1 ++ (if fraction = [] then [] else '.' :: fraction) ++
    'e' :: (if power < 0 then '-' else '+') ::
      (List.replicate (exponentDigits - exponent.length) '0' ++ exponent)

/-- The text of a decimal. Zeros at the end of its digits are not written. -/
def text (layout : Layout) (decimal : Decimal) : List Char :=
  let all := Nat.toDigits 10 decimal.digits
  let digits := (all.reverse.dropWhile (· == '0')).reverse
  let place := all.length + decimal.exponent
  if decimal.digits = 0 then ['0', '.', '0']
  else if layout.lowest ≤ place - 1 ∧ place - 1 ≤ layout.highest then positional digits place
  else scientific layout.exponentDigits digits (place - 1)

end Decimal

namespace Floating

/-- The text of a floating number. -/
def text : Floating → String
  | .nan => "nan"
  | .infinite negative => if negative then "-inf" else "inf"
  | .finite negative significand exponent =>
      let decimal := if significand = 0 then ⟨0, 0⟩ else shortest significand exponent
      let shown := decimal.text .standard
      String.ofList (if negative then '-' :: shown else shown)

end Floating

end FlatTree
