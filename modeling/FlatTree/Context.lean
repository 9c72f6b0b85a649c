import FlatTree.Clock

/-!
The cancellation carrier that comes with a request. Handlers accept it and do not poll it. A
context counts down the time to its deadline, and time passes for it only while a caller waits.
-/

namespace FlatTree

structure Context where
  /-- Whether the caller cancelled. -/
  cancelled : Bool := false
  /-- Seconds left until the deadline, for a context that has one. -/
  remaining : Option Floating := none
  deriving DecidableEq, Inhabited

namespace Context

/-- A context whose deadline is `timeout` seconds away. The deadline is a floating number, so an
integer above them all is refused. -/
def withTimeout : Quantity → Except Fault Context
  | none => .ok {}
  | some (.real seconds) => .ok { remaining := some seconds }
  | some (.whole seconds) =>
      match Floating.nearestInt seconds with
      | .infinite _ => .error .deadlineTooFar
      | left => .ok { remaining := some left }

def hasDeadline (context : Context) : Bool :=
  context.remaining.isSome

def cancel (context : Context) : Context :=
  { context with cancelled := true }

/-- The deadline has come. One that is not a number never comes. -/
def expired (context : Context) : Bool :=
  match context.remaining with
  | none => false
  | some left => left.le Clock.resolution

/-- A context counts as cancelled by its caller's word or by its deadline. -/
def isCancelled (context : Context) : Bool :=
  context.cancelled || context.expired

/-- The context after `seconds` of waiting have passed. -/
def elapse (seconds : Scalar) (context : Context) : Context :=
  { context with remaining := context.remaining.map fun left => left.sub seconds.value }

/-- The longest that a wait may take: no longer than up to the deadline. -/
def patience (timeout : Quantity) (context : Context) : Quantity :=
  match context.remaining with
  | none => timeout
  | some left =>
      let left := if (Floating.ofInt 0).lt left && !context.expired then left else .ofInt 0
      match timeout with
      | none => some (.real left)
      | some time => if left.lt time.value then some (.real left) else some time

/-- Lets time pass. A span that is not positive, or not a number, passes at once. -/
def pause (seconds : Scalar) (context : Context) : Except Fault Context :=
  if (Scalar.whole 0).lt seconds then
    match Clock.ticks seconds with
    | .error fault => .error fault
    | .ok ticks => if ticks < 0 then .error .waitNegative else .ok (context.elapse seconds)
  else .ok context

/-- Waits until the deadline has come or `timeout` has passed, and says whether the context is
cancelled then. Once its caller has cancelled it there is nothing to wait for. -/
def wait (timeout : Quantity) (context : Context) : Except Fault (Bool × Context) :=
  if context.cancelled then .ok (true, context)
  else
    match context.patience timeout with
    | none => .error .endlessWait
    | some seconds =>
        match context.pause seconds with
        | .error fault => .error fault
        | .ok later => .ok (later.isCancelled, later)

end Context

end FlatTree
