import FlatTree.Server

/-!
Sessions: several stores that work on one heap, so that a node got from one store can be put into
another. Steps run on one store at a time; scopes and observations belong to the session.
-/

namespace FlatTree

structure Session where
  heap : Heap := {}
  volumes : List Volume := []
  scopes : List Request := []
  trace : List Observation := []
  deriving DecidableEq

namespace Session

variable {α : Type}

/-- The session with one more, empty store. -/
def addVolume (session : Session) (settings : Settings) : Session :=
  let (root, heap) := session.heap.create { path := Path.root, isDirectory := true }
  { session with heap, volumes := session.volumes ++ [{ settings, root }] }

/-- A session with one empty store for each of some settings. -/
def start (settings : List Settings) : Session :=
  settings.foldl addVolume {}

/-- The store with a number. A number without a store stands for a blank one that nothing keeps. -/
def volume (session : Session) (store : Nat) : Volume :=
  session.volumes[store]?.getD { settings := {}, root := ⟨0⟩ }

/-- The state in which steps on a store run. -/
def state (session : Session) (store : Nat) : State where
  heap := session.heap
  volume := session.volume store
  scopes := session.scopes
  trace := session.trace

/-- The session after a step on a store has left a state behind. -/
def resume (session : Session) (store : Nat) (state : State) : Session where
  heap := state.heap
  volumes := session.volumes.set store state.volume
  scopes := state.scopes
  trace := state.trace

/-- Runs a step on a store. -/
def act (session : Session) (store : Nat) (step : Act α) : Except Refusal α × Session :=
  match step (session.state store) with
  | .ok value state => (.ok value, session.resume store state)
  | .error refusal state => (.error refusal, session.resume store state)

/-- Changes a store directly, past its services. -/
def changeVolume (session : Session) (store : Nat) (change : Volume → Volume) : Session :=
  { session with volumes := session.volumes.set store (change (session.volume store)) }

/-- Opens the scope of a request. -/
def enter (session : Session) (request : Request) : Session :=
  { session with scopes := request :: session.scopes }

/-- Leaves the innermost scope, if one is open, at the end of its block or with a failure that was
raised in the block and goes on. However it is left, the request in force afterwards is the one
before. -/
def leave (session : Session) : Option Failure → Except Failure Unit × Session
  | none => (.ok (), { session with scopes := session.scopes.tail })
  | some failure => (.error failure, { session with scopes := session.scopes.tail })

/-- The request in force. -/
def current (session : Session) : Option Request := session.scopes.head?

/-- A new node that stands in no store. -/
def makeNode (session : Session) (node : Node) : NodeId × Session :=
  let (id, heap) := session.heap.create node
  (id, { session with heap })

end Session

end FlatTree
