import FlatTree.Clock

/-!
The delay that stands for the time a transfer takes: so many seconds for each byte. The time itself
is not kept; what matters is which delays a clock cannot sleep for.
-/

namespace FlatTree

/-- Seconds per byte. Without a number there is no delay. -/
abbrev Delay := Quantity

namespace Delay

/-- Why a transfer of `count` bytes cannot be delayed, if it cannot. A delay of zero is never slept
for, whatever the number of bytes. -/
def fault? (delay : Delay) (count : Nat) : Option Fault :=
  match delay with
  | none => none
  | some seconds =>
      if seconds.value.isZero then none
      else
        match Clock.ticks (seconds.times count) with
        | .error fault => some fault
        | .ok ticks => if ticks < 0 then some .delayNegative else none

end Delay

end FlatTree
