import FlatTree.Number.Shortest

/-!
The numbers that callers hand in: integers of any size and floating numbers. The two kinds compare
by their exact values and differ in their texts. A `Quantity` is such a number or none at all.
-/

namespace FlatTree

inductive Scalar where
  | whole (n : Int)
  | real (x : Floating)
  deriving DecidableEq, Inhabited

namespace Scalar

/-- The exact value. -/
def value : Scalar → Floating
  | .whole n => .ofInt n
  | .real x => x

/-- The order of the values; not-a-number is below nothing. -/
def lt (x y : Scalar) : Bool := x.value.lt y.value

/-- Equality of the values; not-a-number equals nothing. -/
def eq (x y : Scalar) : Bool := x.value.eq y.value

def text : Scalar → String
  | .whole n => toString n
  | .real x => x.text

/-- The product with a natural number: exact for an integer, rounded for a floating number. -/
def times (count : Nat) : Scalar → Scalar
  | .whole n => .whole (n * count)
  | .real x => .real (x.times count)

end Scalar

/-- A number that may be absent, as a caller gives it. -/
abbrev Quantity := Option Scalar

namespace Quantity

/-- The text of a quantity. -/
def text : Quantity → String
  | none => "None"
  | some x => x.text

/-- Two quantities agree when both are absent or both are there and equal. -/
def agree : Quantity → Quantity → Bool
  | none, none => true
  | some x, some y => x.eq y
  | _, _ => false

end Quantity

end FlatTree
