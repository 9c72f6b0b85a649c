import FlatTree.Proofs.Deeds
import FlatTree.Proofs.Purpose
import FlatTree.Proofs.Staleness

/-!
Calls and work on nodes, one after the other. A caller may hold any node, whatever the
table says of it by now. What work makes of the node that it is done on hangs on that
node alone, and no other node is touched (`Work.act_cases`); what an answered call makes
of a node is what the change makes of it that was planned (`State.node_of_answer_ok`).
-/

namespace FlatTree

/-- What can be done with a node that is held. -/
inductive Work where
  | read (size offset : Int)
  | fill (buffer : Bytes) (offset : Int)
  | write (data : Bytes) (offset : Int)
  | truncate (size : Int)
  /-- A transfer over the node has ended, with an error or with none. -/
  | report (failure : Option Failure)

/-- A call, or work on a node that is held. -/
inductive Step where
  | call (call : Call)
  | work (id : NodeId) (work : Work)

namespace Node

variable {node written : Node}

/-- What is fixed about a node from when it is made. -/
def fixed (node : Node) : Bool × Path × Delay × Int :=
  (node.isDirectory, node.target, node.delay, node.createdAt)

/-- Writing to a node changes its content only. -/
theorem writeAt_eq_ok {data : Bytes} {offset : Int} (h : node.writeAt data offset = .ok written) :
    written = { node with content := node.content.write offset.toNat data } := by
  unfold writeAt at h
  split at h
  · cases h
  · split at h
    · cases h
    · split at h
      · cases h
      · cases h
        rfl

end Node

namespace Work

/-- Does the work on a node, and hands back nothing but whether it was refused. -/
def act (id : NodeId) : Work → Act Unit
  | .read size offset => do let _ ← Transfer.readAt id size offset
  | .fill buffer offset => do let _ ← Transfer.readInto id buffer offset
  | .write data offset => do let _ ← Transfer.writeAt id data offset
  | .truncate size => Transfer.truncate id size
  | .report failure => Transfer.report id failure

/-- What the work makes of the node that it is done on. -/
def result (node : Node) : Work → Except Fault Node
  | .read size offset => (node.readAt size offset).map fun _ => node
  | .fill buffer offset => (node.readInto buffer offset).map fun _ => node
  | .write data offset => node.writeAt data offset
  | .truncate size => node.truncate size
  | .report failure => .ok { node with transferError := failure }

/-- Work that is refused changes nothing. Work that is done gives the node its new value
and leaves the volume and every other node as they were. -/
theorem act_cases (work : Work) (id : NodeId) (state : State) :
    (∃ fault, work.result (state.node id) = .error fault ∧
        work.act id state = .error (.fault fault) state) ∨
      ∃ node after, work.result (state.node id) = .ok node ∧
        work.act id state = .ok () after ∧ after.volume = state.volume ∧
        state.heap.size ≤ after.heap.size ∧
        ∀ other, after.node other = if other = id then node else state.node other := by
  have hkept : ∀ other, state.node other =
      if other = id then state.node id else state.node other := by
    intro other
    split
    · rename_i hother
      rw [hother]
    · rfl
  have hset : ∀ node, state.heap.size ≤ (state.commit (.rewrite id node)).heap.size := by
    intro node
    rw [State.size_rewrite]
    omega
  cases work with
  | read size offset =>
      simp only [act, result, Act.bind_run, Transfer.readAt_run, State.node]
      cases (state.heap.get id).readAt size offset with
      | error fault => exact Or.inl ⟨fault, rfl, rfl⟩
      | ok data => exact Or.inr ⟨_, state, rfl, rfl, rfl, Nat.le_refl _, hkept⟩
  | fill buffer offset =>
      simp only [act, result, Act.bind_run, Transfer.readInto_run, State.node]
      cases (state.heap.get id).readInto buffer offset with
      | error fault => exact Or.inl ⟨fault, rfl, rfl⟩
      | ok filled => exact Or.inr ⟨_, state, rfl, rfl, rfl, Nat.le_refl _, hkept⟩
  | write data offset =>
      simp only [act, result, Act.bind_run, Transfer.writeAt_run, State.node]
      cases (state.heap.get id).writeAt data offset with
      | error fault => exact Or.inl ⟨fault, rfl, rfl⟩
      | ok written =>
          exact Or.inr ⟨written, _, rfl, rfl, rfl, hset written, State.get_rewrite id⟩
  | truncate size =>
      simp only [act, result, Transfer.truncate_run, State.node]
      cases (state.heap.get id).truncate size with
      | error fault => exact Or.inl ⟨fault, rfl, rfl⟩
      | ok cut => exact Or.inr ⟨cut, _, rfl, rfl, rfl, hset cut, State.get_rewrite id⟩
  | report failure =>
      exact Or.inr ⟨_, _, rfl, Transfer.report_run id state failure, rfl, hset _,
        State.get_rewrite id⟩

/-- How work on a node ends. -/
def answer (work : Work) (id : NodeId) (state : State) : Except Refusal Unit :=
  match work.act id state with
  | .ok _ _ => .ok ()
  | .error refusal _ => .error refusal

end Work

namespace State

variable {state : State} {id : NodeId}

/-- The state after a step, done or refused. -/
def take (state : State) : Step → State
  | .call call => state.serve call
  | .work id work =>
      match work.act id state with
      | .ok _ after => after
      | .error _ after => after

/-- The state after a course of steps. -/
def follow (state : State) (steps : List Step) : State :=
  steps.foldl take state

theorem follow_cons (state : State) (step : Step) (rest : List Step) :
    state.follow (step :: rest) = (state.take step).follow rest := rfl

/-- What every step preserves, every course preserves. -/
theorem follow_induction {motive : State → Prop} (state : State) (steps : List Step)
    (start : motive state)
    (step : ∀ state step, motive state → motive (state.take step)) :
    motive (state.follow steps) := by
  induction steps generalizing state with
  | nil => exact start
  | cons first rest ih => exact ih (state.take first) (step state first start)

/-- Work that is refused leaves the state alone, and work that is done changes the node
that it is done on and no other. -/
theorem take_work_cases (state : State) (id : NodeId) (work : Work) :
    (∃ refusal, work.answer id state = .error refusal ∧ state.take (.work id work) = state) ∨
      ∃ node, work.answer id state = .ok () ∧ work.result (state.node id) = .ok node ∧
        (state.take (.work id work)).volume = state.volume ∧
        state.heap.size ≤ (state.take (.work id work)).heap.size ∧
        ∀ other, (state.take (.work id work)).node other =
          if other = id then node else state.node other := by
  have htake : state.take (.work id work) = match work.act id state with
      | .ok _ after => after
      | .error _ after => after := rfl
  unfold Work.answer
  rw [htake]
  rcases work.act_cases id state with
    ⟨fault, -, hact⟩ | ⟨node, after, hresult, hact, hafter⟩
  · rw [hact]
    exact Or.inl ⟨_, rfl, rfl⟩
  · rw [hact]
    exact Or.inr ⟨node, rfl, hresult, hafter⟩

/-- What a change makes of a node. -/
theorem node_commit (state : State) (change : Change) (id : NodeId) :
    (state.commit change).node id = match change with
      | .rewrite other node => if id = other then node else state.node id
      | .add node _ => if id = ⟨state.heap.size⟩ then
          { node with delay := state.volume.settings.writeDelay, createdAt := state.heap.size }
          else state.node id
      | .move _ _ moves =>
          { state.node id with path := Heap.pathAfter moves id (state.node id).path }
      | .keep | .share _ _ _ | .remove _ => state.node id := by
  cases change with
  | keep => rfl
  | rewrite other node => exact get_rewrite other id
  | add node record => exact get_add id
  | share target path shared => rfl
  | move source target moves => exact get_move id
  | remove path =>
      unfold node
      rw [heap_remove]

/-- Of the nodes that were made, a change touches those that it gives another value and
those that it moves. -/
theorem node_commit_of_made (change : Change) (hmade : id.index < state.heap.size) :
    (state.commit change).node id = match change with
      | .rewrite other node => if id = other then node else state.node id
      | .move _ _ moves =>
          { state.node id with path := Heap.pathAfter moves id (state.node id).path }
      | .keep | .add _ _ | .share _ _ _ | .remove _ => state.node id := by
  cases change with
  | add node record => exact get_add_of_made hmade
  | keep | rewrite | share | move | remove => exact node_commit state _ id

theorem size_le_commit (state : State) (change : Change) :
    state.heap.size ≤ (state.commit change).heap.size := by
  cases change with
  | keep => exact Nat.le_refl _
  | rewrite other node =>
      rw [size_rewrite]
      omega
  | add node record =>
      rw [size_add]
      omega
  | share target path shared => exact Nat.le_refl _
  | move source target moves => exact Heap.size_le_relocate state.heap moves
  | remove path =>
      rw [heap_remove]

/-- A refused call leaves all nodes as they are. -/
theorem node_of_answer_error {call : Call} {refusal : Refusal}
    (h : call.answer state = .error refusal) (id : NodeId) :
    (state.serve call).node id = state.node id := by
  unfold node
  rw [(agrees_of_answer_error h).heap]

/-- The nodes after an answered call are those after the change that it planned. -/
theorem node_of_answer_ok {call : Call} {reply : Reply} (h : call.answer state = .ok reply) :
    ∃ change, call.Makes state.volume.tidy state.heap reply change ∧
      change.Permitted state.volume.tidy state.heap ∧
      state.heap.size ≤ (state.serve call).heap.size ∧
      ∀ id, (state.serve call).node id = (state.commit change).node id := by
  obtain ⟨change, -, hplan, hagrees⟩ := agrees_of_answer_ok h
  refine ⟨change, Call.makes_of_plan hplan, Call.permitted_of_plan hplan, ?_, ?_⟩
  · rw [hagrees.heap]
    exact size_le_commit state change
  · intro id
    unfold node
    rw [hagrees.heap]

/-- A node that was not made yet is blank. -/
theorem node_unmade (hunmade : state.heap.size ≤ id.index) : state.node id = default := by
  unfold node Heap.get
  rw [List.getElem?_eq_none hunmade]
  rfl

end State

end FlatTree
