import FlatTree.Fault
import FlatTree.Number.Scalar

/-!
Spans of time as a clock takes them. The clock counts whole nanoseconds in a signed word of 64 bits,
so not every number of seconds is a span that one can sleep or wait for.
-/

namespace FlatTree.Clock

/-- Nanoseconds in a second. -/
def ticksPerSecond : Nat := 1000000000

/-- The distance of two readings of the clock in seconds. A deadline that is no farther away has
come when the clock is read next. -/
def resolution : Floating := .nearest false 1 1000000

/-- The ticks in a span of so many seconds. A part of a tick counts as a whole one. Ticks of a
floating number are bounded in the 64-bit format, where the greatest word is taken for the power of
two above it; a span of just that many ticks wraps around to the least word. -/
def ticks : Scalar → Except Fault Int
  | .whole seconds =>
      let count := seconds * ticksPerSecond
      if FitsWord count then .ok count else .error .spanOutOfRange
  | .real seconds =>
      match seconds.times ticksPerSecond with
      | .nan => .error .spanNotANumber
      | .infinite _ => .error .spanOutOfRange
      | .finite negative significand exponent =>
          let magnitude := Floating.ceil significand exponent
          if wordBound < magnitude then .error .spanOutOfRange
          else if negative ∨ magnitude = wordBound then .ok (-magnitude)
          else .ok magnitude

end FlatTree.Clock
