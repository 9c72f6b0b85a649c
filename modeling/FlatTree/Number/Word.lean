/-!
Signed words of 64 bits, and powers whose exponents are integers.
-/

namespace FlatTree

/-- Two to the power of 63: a signed word of 64 bits reaches from its negative up to, but not
including, this number. -/
def wordBound : Nat := 0x8000000000000000

/-- Whether a number fits a signed word of 64 bits. -/
def FitsWord (n : Int) : Prop := -(wordBound : Int) ≤ n ∧ n < wordBound

instance (n : Int) : Decidable (FitsWord n) :=
  inferInstanceAs (Decidable (-(wordBound : Int) ≤ n ∧ n < wordBound))

/-- The power with a given base; for a negative exponent it is one. -/
def power (base : Nat) (exponent : Int) : Nat := Nat.pow base exponent.toNat

end FlatTree
