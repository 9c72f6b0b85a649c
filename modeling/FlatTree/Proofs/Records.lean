import FlatTree.Proofs.Purpose
import FlatTree.Proofs.Staleness

/-!
The records of a call. A change logs at most one record, and logs it when it is made
(`State.trace_commit`); whether it logs one is whether the live entries have changed
(`Change.Permitted.live?_commit_ne_iff`). Every call looks paths up and then makes a
permitted change, with its own request in force all the while (`State.serve_eq_during`),
so both carry over to calls, from any state and whether they are answered or refused.
-/

namespace FlatTree

namespace Table

variable {table : Table}

/-- Putting a node under a free path changes the live entries. -/
theorem live?_insert_ne {path : Path} {id : NodeId} (free : table.live? path = none) :
    (table.insert path (some id)).live? ≠ table.live? := by
  intro hsame
  have hat := congrFun hsame path
  rw [live?_insert, if_pos rfl, free] at hat
  cases hat

/-- A clear move changes the live entries: its source has a node, so it is the target of no
move, and nothing is left under it. -/
theorem live?_relocate_ne {moves : List Move} (h : table.Clear moves) {move : Move}
    (member : move ∈ moves) : (table.relocate moves).live? ≠ table.live? := by
  intro hsame
  have hnoTarget : move.source ∉ moves.map Move.target := by
    intro hmapped
    obtain ⟨other, hother, hback⟩ := List.mem_map.mp hmapped
    have hnone := h.free other hother
    rw [hback, h.held move member] at hnone
    cases hnone
  have hat := congrFun hsame move.source
  rw [live?_relocate_of_notMem hnoTarget, if_pos (List.mem_map_of_mem member),
    h.held move member] at hat
  cases hat

/-- Taking out a path that has a node changes the live entries. -/
theorem live?_erase_ne {path : Path} {id : NodeId} (held : table.live? path = some id) :
    (table.erase path).live? ≠ table.live? := by
  intro hsame
  have hat := congrFun hsame path
  rw [live?_erase, if_pos rfl, held] at hat
  cases hat

end Table

/-- The record that is logged of a change in a table. Taking out a path without a node is
no change of the store and has none. -/
def Change.record? (table : Table) : Change → Option Record
  | .keep | .rewrite _ _ => none
  | .add _ record => some record
  | .share target path _ => some (.linked target path)
  | .move source target _ => some (.renamed source target)
  | .remove path => if (table.live? path).isSome then some (.removed path) else none

namespace State

/-- A change logs its record when it is made: the record shows the nodes and the table that
the change leaves. -/
theorem trace_commit (state : State) (change : Change) :
    (state.commit change).trace =
      state.trace ++ (change.record? state.volume.table).toList.map fun record =>
        (state.commit change).observation (.logged record) := by
  cases change with
  | keep => exact (List.append_nil _).symm
  | rewrite id node => exact (List.append_nil _).symm
  | add node record => rfl
  | share target path id => rfl
  | move source target moves => rfl
  | remove path =>
      simp only [commit, Change.record?]
      split
      · rfl
      · exact (List.append_nil _).symm

@[simp] theorem scopes_commit (state : State) (change : Change) :
    (state.commit change).scopes = state.scopes := by
  cases change with
  | remove path =>
      simp only [commit]
      split <;> rfl
  | _ => rfl

@[simp] theorem scopes_visit (state : State) (path : Path) :
    (state.visit path).scopes = state.scopes := by
  unfold visit
  split <;> rfl

@[simp] theorem scopes_visitAll (state : State) (trail : List Path) :
    (state.visitAll trail).scopes = state.scopes := by
  induction trail generalizing state with
  | nil => rfl
  | cons path rest ih => exact (ih _).trans (scopes_visit state path)

/-- Looking paths up is seen under the request in force, and nothing is logged. -/
theorem trace_visitAll (state : State) (trail : List Path) :
    ∃ looks, (state.visitAll trail).trace = state.trace ++ looks ∧
      ∀ look ∈ looks, look.record? = none ∧ look.current = state.current := by
  induction trail generalizing state with
  | nil => exact ⟨[], (List.append_nil _).symm, by simp⟩
  | cons path rest ih =>
      obtain ⟨looks, htrace, hlooks⟩ := ih (state.visit path)
      refine ⟨state.observation (.lookedUp path) :: looks, ?_, ?_⟩
      · change ((state.visit path).visitAll rest).trace = _
        rw [htrace, trace_visit, List.append_assoc]
        rfl
      · intro look member
        rcases List.mem_cons.mp member with rfl | later
        · exact ⟨rfl, rfl⟩
        · obtain ⟨hrecord, hcurrent⟩ := hlooks look later
          exact ⟨hrecord, by rw [hcurrent, current, scopes_visit, current]⟩

/-- Every call looks paths up and makes a permitted change while its request is in force.
A call that is refused makes the change that keeps everything. -/
theorem serve_eq_during (state : State) (call : Call) :
    ∃ trail change, change.Permitted state.volume.tidy state.heap ∧
      state.serve call =
        state.during call.request fun entered => (entered.visitAll trail).commit change := by
  cases hinjected : state.volume.injected with
  | some failure =>
      refine ⟨[], .keep, .keep, ?_⟩
      unfold serve
      rw [Call.run_eq, hinjected]
      rfl
  | none =>
      rw [serve_eq call hinjected]
      cases houtcome : (call.plan state.volume.tidy state.heap).outcome with
      | error fault => exact ⟨_, .keep, .keep, rfl⟩
      | ok planned => exact ⟨_, planned.2, Call.permitted_of_plan houtcome, rfl⟩

end State

namespace Change.Permitted

variable {state : State} {change : Change}

/-- The records of changes go to the log of the store. -/
theorem channel {volume : Volume} {heap : Heap} {table : Table} {record : Record}
    (h : change.Permitted volume heap) (hrecord : change.record? table = some record) :
    record.channel = .store := by
  cases h with
  | keep => cases hrecord
  | rewrite leads cut => cases hrecord
  | remove apart leads empty =>
      simp only [record?] at hrecord
      split at hrecord
      · cases hrecord
        rfl
      · cases hrecord
  | _ =>
      cases hrecord
      rfl

/-- A permitted change has a record if and only if it changes the live entries. -/
theorem live?_commit_ne_iff (h : change.Permitted state.volume.tidy state.heap) :
    (state.commit change).volume.table.live? ≠ state.volume.table.live? ↔
      (change.record? state.volume.table).isSome = true := by
  have hlive : state.volume.tidy.table.live? = state.volume.table.live? :=
    Table.live?_tidy state.volume.table
  have hfits := h.fits
  cases h with
  | keep => exact iff_of_false (fun hne => hne rfl) Bool.false_ne_true
  | rewrite leads cut => exact iff_of_false (fun hne => hne rfl) Bool.false_ne_true
  | file | directory | link | share =>
      simp only [Fits, hlive] at hfits
      exact iff_of_true (Table.live?_insert_ne hfits) rfl
  | move apart held outside parent free =>
      have hmoved := Table.live?_relocate_ne hfits (Volume.mem_moves.mpr (Or.inl rfl))
      rw [Table.live?_relocate_congr hlive, hlive] at hmoved
      exact iff_of_true hmoved rfl
  | @remove path id apart leads empty =>
      simp only [State.commit, record?]
      cases hpath : state.volume.table.live? path with
      | none =>
          refine iff_of_false (fun hne => hne ?_) Bool.false_ne_true
          exact Table.live?_congr (Table.live_erase_of_live?_eq_none hpath)
      | some held => exact iff_of_true (Table.live?_erase_ne hpath) rfl

end Change.Permitted

namespace State

/-- What a call lets be seen: look-ups, then the record of its change if it has one, all
under the request of the call. -/
theorem trace_during (state : State) (request : Request) (trail : List Path)
    (change : Change) :
    let after := state.during request fun entered => (entered.visitAll trail).commit change
    ∃ looks, (∀ look ∈ looks, look.record? = none ∧ look.current = some request) ∧
      after.trace = state.trace ++ (looks ++
        (change.record? state.volume.table).toList.map fun record =>
          ⟨.logged record, some request, after.heap, after.volume.table⟩) := by
  intro after
  let entered : State := { state with scopes := request :: state.scopes }
  obtain ⟨looks, hlooked, hlooks⟩ := entered.trace_visitAll trail
  have hrecord : change.record? (entered.visitAll trail).volume.table =
      change.record? state.volume.table := by
    unfold Change.record?
    rw [Table.live?_congr (entered.live_visitAll trail)]
  refine ⟨looks, hlooks, ?_⟩
  have htrace := trace_commit (entered.visitAll trail) change
  rw [hrecord, hlooked] at htrace
  have hcurrent : ((entered.visitAll trail).commit change).current = some request := by
    rw [current, scopes_commit, scopes_visitAll]
    rfl
  simp only [observation, hcurrent] at htrace
  rw [List.append_assoc] at htrace
  exact htrace

/-- One record for each change of the store. From any state, a call that changes the live
entries logs one record, to the log of the store, and a call that does not logs none,
answered or refused. The record is seen when all is changed: it shows the nodes and the
table that the call leaves. And it is seen under the call's own request, whatever scopes
are open around it. -/
theorem record_per_change (state : State) (call : Call) :
    let after := state.serve call
    ∃ seen, after.trace = state.trace ++ seen ∧
      let logged := seen.filter (·.record?.isSome)
      (after.volume.table.live? = state.volume.table.live? ∧ logged = []) ∨
        (after.volume.table.live? ≠ state.volume.table.live? ∧
          ∃ record, record.channel = .store ∧
            logged = [⟨.logged record, some call.request, after.heap, after.volume.table⟩]) := by
  obtain ⟨trail, change, hpermitted, hserve⟩ := state.serve_eq_during call
  obtain ⟨looks, hlooks, htrace⟩ := state.trace_during call.request trail change
  have hagrees := state.agrees_during call.request trail change
  rw [← hserve] at htrace hagrees
  have hsilent : looks.filter (·.record?.isSome) = [] := by
    rw [List.filter_eq_nil_iff]
    intro look member
    simp [(hlooks look member).1]
  have hchanged := hpermitted.live?_commit_ne_iff
  rw [← hagrees.live] at hchanged
  refine ⟨_, htrace, ?_⟩
  cases hrecord : change.record? state.volume.table with
  | none =>
      rw [hrecord] at hchanged
      refine Or.inl ⟨not_not.mp fun hne => absurd (hchanged.mp hne) Bool.false_ne_true, ?_⟩
      simpa using hsilent
  | some record =>
      rw [hrecord] at hchanged
      refine Or.inr ⟨hchanged.mpr rfl, record, hpermitted.channel hrecord, ?_⟩
      rw [List.filter_append, hsilent]
      rfl

end State

end FlatTree
