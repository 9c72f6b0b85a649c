import FlatTree.Proofs.Commons

/-!
Work on nodes that were obtained. Reading, writing and cutting look at nothing but
the node, and end in a fault or in a response with at most one change, another
value for the node (`Deed.outcome`). So a deed that is no call has the effect of
its outcome (`Deed.perform_of_handle`).
-/

namespace FlatTree

namespace Transfer

open Act

variable (id : NodeId) (state : State)

theorem readAt_run (size offset : Int) : readAt id size offset state =
    match (state.heap.get id).readAt size offset with
    | .error fault => .error (.fault fault) state
    | .ok data => .ok data state := by
  have hrun : readAt id size offset state =
      orRefuse ((state.heap.get id).readAt size offset) state := rfl
  rw [hrun]
  cases (state.heap.get id).readAt size offset with
  | error fault => rfl
  | ok data => rfl

theorem readInto_run (buffer : Bytes) (offset : Int) : readInto id buffer offset state =
    match (state.heap.get id).readInto buffer offset with
    | .error fault => .error (.fault fault) state
    | .ok filled => .ok filled state := by
  have hrun : readInto id buffer offset state =
      orRefuse ((state.heap.get id).readInto buffer offset) state := rfl
  rw [hrun]
  cases (state.heap.get id).readInto buffer offset with
  | error fault => rfl
  | ok filled => rfl

theorem writeAt_run (data : Bytes) (offset : Int) : writeAt id data offset state =
    match (state.heap.get id).writeAt data offset with
    | .error fault => .error (.fault fault) state
    | .ok written => .ok data.length (state.commit (.rewrite id written)) := by
  have hrun : writeAt id data offset state =
      (do
        let written ← orRefuse ((state.heap.get id).writeAt data offset)
        setNode id written
        return data.length : Act Nat) state := rfl
  rw [hrun]
  cases (state.heap.get id).writeAt data offset with
  | error fault => rfl
  | ok written => rfl

theorem truncate_run (size : Int) : truncate id size state =
    match (state.heap.get id).truncate size with
    | .error fault => .error (.fault fault) state
    | .ok cut => .ok () (state.commit (.rewrite id cut)) := by
  have hrun : truncate id size state =
      (do
        let cut ← orRefuse ((state.heap.get id).truncate size)
        setNode id cut : Act Unit) state := rfl
  rw [hrun]
  cases (state.heap.get id).truncate size with
  | error fault => rfl
  | ok cut => rfl

/-- The end of a transfer is logged before it is noted. -/
theorem report_run (failure : Option Failure) : report id failure state =
    .ok () ((state.observe [.logged (.transferEnded (state.node id).path failure)]).commit
      (.rewrite id { state.node id with transferError := failure })) := rfl

end Transfer

namespace Deed

/-- The place of the node that a deed works on. -/
def handle? : Deed → Option Nat
  | .call _ => none
  | .read handle _ _ | .write handle _ _ | .truncate handle _ => some handle

/-- What work on a node comes to: a response, and the node's new value if it is
changed. -/
def outcome (node : Node) : Deed → Except Fault (Response × Option Node)
  | .call _ => .ok (.done, none)
  | .read _ size offset => do return (.bytes (← node.readAt size offset), none)
  | .write _ data offset => do
      return (.written data.length, some (← node.writeAt data offset))
  | .truncate _ size => do return (.done, some (← node.truncate size))

def change (id : NodeId) : Option Node → Change
  | none => .keep
  | some node => .rewrite id node

def effect (state : State) (id : NodeId) :
    Except Fault (Response × Option Node) → Effect
  | .error fault => ⟨state, [], .refused fault.failure⟩
  | .ok (response, value) => ⟨state.commit (change id value), [], response⟩

/-- A deed on a node that was obtained has the effect of its outcome. -/
theorem perform_of_handle {deed : Deed} {handle : Nat} (h : deed.handle? = some handle)
    (state : State) (held : List NodeId) :
    deed.perform state held = some (
      match held[handle]? with
      | none => ⟨state, [], .noHandle⟩
      | some id => effect state id (deed.outcome (state.heap.get id))) := by
  cases deed with
  | call asked => cases h
  | read handle size offset =>
      cases h
      simp only [perform, onHandle, outcome, map_eq_pure_bind, Act.bind_run,
        Transfer.readAt_run]
      cases held[handle]? with
      | none => rfl
      | some id =>
          simp only
          cases (state.heap.get id).readAt size offset with
          | error fault => rfl
          | ok data => rfl
  | write handle data offset =>
      cases h
      simp only [perform, onHandle, outcome, map_eq_pure_bind, Act.bind_run,
        Transfer.writeAt_run]
      cases held[handle]? with
      | none => rfl
      | some id =>
          simp only
          cases (state.heap.get id).writeAt data offset with
          | error fault => rfl
          | ok written => rfl
  | truncate handle size =>
      cases h
      simp only [perform, onHandle, outcome, map_eq_pure_bind, Act.bind_run,
        Transfer.truncate_run]
      cases held[handle]? with
      | none => rfl
      | some id =>
          simp only
          cases (state.heap.get id).truncate size with
          | error fault => rfl
          | ok cut => rfl

/-- A call that comes to an end leaves the state that the store is then in. -/
theorem state_of_call {call : Call} {state : State} {held : List NodeId} {effect : Effect}
    (h : (Deed.call call).perform state held = some effect) :
    effect.state = state.serve call := by
  simp only [perform] at h
  cases hanswer : call.answer state with
  | ok reply =>
      simp only [hanswer] at h
      cases h
      rfl
  | error refusal =>
      simp only [hanswer] at h
      split at h
      · cases h
      · cases h
        rfl

end Deed

end FlatTree
