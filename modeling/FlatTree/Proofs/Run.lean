import FlatTree.Proofs.Plan

/-!
Runs: calls served one after the other, each from the state that the one before
left behind, refused or not.
-/

namespace FlatTree

/-- What a call answers from a state. -/
def Call.answer (call : Call) (state : State) : Except Refusal Reply :=
  match call.run state with
  | .ok reply _ => .ok reply
  | .error refusal _ => .error refusal

namespace State

/-- The state that a call leaves behind, answered or refused. -/
def serve (state : State) (call : Call) : State :=
  match call.run state with
  | .ok _ after => after
  | .error _ after => after

/-- The state after a run of calls. -/
def run (state : State) (calls : List Call) : State :=
  calls.foldl serve state

/-- The answers to a run of calls, first to last. -/
def answers (state : State) : List Call → List (Except Refusal Reply)
  | [] => []
  | call :: rest => call.answer state :: (state.serve call).answers rest

theorem run_cons (state : State) (call : Call) (rest : List Call) :
    state.run (call :: rest) = (state.serve call).run rest := rfl

theorem run_append (state : State) (earlier later : List Call) :
    state.run (earlier ++ later) = (state.run earlier).run later :=
  List.foldl_append ..

/-- What every call preserves, every run preserves. -/
theorem run_induction {motive : State → Prop} (state : State) (calls : List Call)
    (start : motive state)
    (step : ∀ state call, motive state → motive (state.serve call)) :
    motive (state.run calls) := by
  induction calls generalizing state with
  | nil => exact start
  | cons call rest ih => exact ih (state.serve call) (step state call start)

/-- Without an injected failure a call leaves behind what its plan says. -/
theorem serve_eq {state : State} (call : Call) (hinjected : state.volume.injected = none) :
    state.serve call =
      match (call.plan state.volume.tidy state.heap).outcome with
      | .error _ => state.during call.request
          (·.visitAll (call.plan state.volume.tidy state.heap).trail)
      | .ok (_, change) => state.during call.request fun entered =>
          (entered.visitAll (call.plan state.volume.tidy state.heap).trail).commit change := by
  unfold serve
  rw [Call.run_eq, hinjected]
  simp only
  cases (call.plan state.volume.tidy state.heap).outcome <;> rfl

theorem answer_eq {state : State} (call : Call) (hinjected : state.volume.injected = none) :
    call.answer state =
      match (call.plan state.volume.tidy state.heap).outcome with
      | .error fault => .error (.fault fault)
      | .ok (reply, _) => .ok reply := by
  unfold Call.answer
  rw [Call.run_eq, hinjected]
  simp only
  cases (call.plan state.volume.tidy state.heap).outcome <;> rfl

end State

end FlatTree
