import FlatTree.Move
import FlatTree.Resolution
import FlatTree.Trace

/-!
The state that a call runs in, and the steps that calls are made of. A step may change the state and
still refuse, so a refusal comes with the state it leaves behind: a look-up that fails takes out the
stale path it met.
-/

namespace FlatTree

structure State where
  heap : Heap
  volume : Volume
  /-- The requests whose scopes are open, the innermost first. -/
  scopes : List Request := []
  /-- All that was observed so far, the latest last. -/
  trace : List Observation := []
  deriving DecidableEq

namespace State

/-- An empty store: a root directory and nothing else. -/
def start (settings : Settings) : State :=
  let (root, heap) := ({} : Heap).create { path := Path.root, isDirectory := true }
  { heap, volume := { settings, root } }

/-- The request in force: that of the innermost open scope. -/
def current (state : State) : Option Request := state.scopes.head?

def node (state : State) (id : NodeId) : Node := state.heap.get id

/-- An event as it would be seen now. -/
def observation (state : State) (event : Event) : Observation where
  event
  current := state.current
  heap := state.heap
  table := state.volume.table

/-- The state after events were seen. -/
def observe (state : State) (events : List Event) : State :=
  { state with trace := state.trace ++ events.map state.observation }

def changeTable (state : State) (change : Table → Table) : State :=
  { state with volume.table := change state.volume.table }

/-- The state in which a path that may be stale is gone from the table. -/
def purge (state : State) (path : Path) : State :=
  state.changeTable (·.erase path)

/-- The state after some moves: the table has the targets for the sources, and each moved node has
the path that it moved to. -/
def relocate (state : State) (moves : List Move) : State :=
  { state with
    heap := state.heap.relocate moves
    volume.table := state.volume.table.relocate moves }

/-- The records logged so far. -/
def records (state : State) : List Record := state.trace.filterMap Observation.record?

end State

/-- What a call is refused with: the failure that the store was told to answer with, or a cause of
its own. -/
inductive Refusal where
  | injected (failure : Failure)
  | fault (cause : Fault)
  deriving DecidableEq

def Refusal.failure : Refusal → Failure
  | .injected failure => failure
  | .fault cause => cause.failure

/-- Whether a refusal only stands for a search that goes on for ever, and so for no answer. -/
def Refusal.endless : Refusal → Bool
  | .fault (.endlessChain _) => true
  | _ => false

/-- A step that reads and changes the state and gives a value or a refusal. -/
abbrev Act := EStateM Refusal State

namespace Act

variable {α β : Type}

def refuse (fault : Fault) : Act α := throw (.fault fault)

theorem pure_run (value : α) (state : State) : (pure value : Act α) state = .ok value state := rfl

theorem refuse_run (fault : Fault) (state : State) :
    (refuse fault : Act α) state = .error (.fault fault) state := rfl

theorem get_run (state : State) : (get : Act State) state = .ok state state := rfl

theorem modify_run (change : State → State) (state : State) :
    (modify change : Act Unit) state = .ok () (change state) := rfl

theorem bind_run (step : Act α) (next : α → Act β) (state : State) :
    (step >>= next) state = match step state with
      | .ok value after => next value after
      | .error refusal after => .error refusal after := by
  change EStateM.bind step next state = _
  unfold EStateM.bind
  cases step state <;> rfl

/-- A value, or a refusal for the cause given instead. -/
def orRefuse : Except Fault α → Act α
  | .ok value => pure value
  | .error fault => refuse fault

/-- Logs a record. -/
def log (record : Record) : Act Unit := modify (·.observe [.logged record])

def node (id : NodeId) : Act Node := return (← get).node id

def setNode (id : NodeId) (node : Node) : Act Unit :=
  modify fun state => { state with heap := state.heap.set id node }

/-- Puts a node under a path. -/
def place (path : Path) (id : NodeId) : Act Unit :=
  modify (·.changeTable (·.insert path (some id)))

/-- Makes a node with the delay of the settings. -/
def makeNode (node : Node) : Act NodeId :=
  modifyGet fun state =>
    let (id, heap) := state.heap.create { node with delay := state.volume.settings.writeDelay }
    (id, { state with heap })

/-- The node of a path, no link followed. A path that is found stale is taken out. -/
def seek (path : Path) : Act (Option NodeId) := do
  modify (·.observe [.lookedUp path])
  match (← get).volume.live? path with
  | some id => return some id
  | none =>
      modify (·.purge path)
      return none

/-- The node of a path, no link followed. -/
def lookUp (path : Path) : Act NodeId := do
  match ← seek path with
  | some id => return id
  | none => refuse (.notFound path)

/-- The node that a path leads to when every symbolic link is followed. -/
def resolve (path : Path) : Act NodeId := do
  let state ← get
  let search := state.volume.resolve state.heap path
  modify (·.observe (search.trail.map .lookedUp))
  match search.resolution with
  | .found id => return id
  | .missing stop =>
      modify (·.purge stop)
      refuse (.notFound stop)
  | .stopped => refuse (state.volume.stopFault path)

/-- Runs a step with a request in force. However the step ends, the request in force afterwards is
the one before. -/
def within (request : Request) (step : Act α) : Act α := fun state =>
  match step { state with scopes := request :: state.scopes } with
  | .ok value after => .ok value { after with scopes := state.scopes }
  | .error refusal after => .error refusal { after with scopes := state.scopes }

/-- Serves a request: an injected failure comes first, then the step runs in the request's scope. -/
def serving (request : Request) (step : Act α) : Act α := do
  match (← get).volume.injected with
  | some failure => throw (.injected failure)
  | none => within request step

/-- Looking a path up without following links finds its node, or leaves the path out. -/
theorem seek_run (path : Path) (state : State) :
    seek path state =
      let seen := state.observe [.lookedUp path]
      match state.volume.live? path with
      | some id => .ok (some id) seen
      | none => .ok none (seen.purge path) := by
  unfold seek
  simp only [bind_run, get_run, modify_run, State.observe]
  cases state.volume.live? path <;> rfl

theorem lookUp_run (path : Path) (state : State) :
    lookUp path state =
      let seen := state.observe [.lookedUp path]
      match state.volume.live? path with
      | some id => .ok id seen
      | none => .error (.fault (.notFound path)) (seen.purge path) := by
  unfold lookUp
  simp only [bind_run, seek_run]
  cases state.volume.live? path <;> rfl

/-- Following links ends as the search does. Only a path that the search found missing is left out
of the table. -/
theorem resolve_run (path : Path) (state : State) :
    resolve path state =
      let search := state.volume.resolve state.heap path
      let seen := state.observe (search.trail.map .lookedUp)
      match search.resolution with
      | .found id => .ok id seen
      | .missing stop => .error (.fault (.notFound stop)) (seen.purge stop)
      | .stopped => .error (.fault (state.volume.stopFault path)) seen := by
  unfold resolve
  simp only [bind_run, get_run, modify_run]
  cases (state.volume.resolve state.heap path).resolution <;> rfl

end Act

end FlatTree
