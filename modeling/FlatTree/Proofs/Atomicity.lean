import FlatTree.Proofs.Run

/-!
A call that is refused leaves the store as it was. The state may be any state:
its table may hold stale paths, entries without a parent and nodes under several
paths, and its links may form circles. What a refused call leaves behind are the
look-ups of its plan, so the one difference allowed is that a stale path which
was looked up is gone; an injected failure does not leave even that.
-/

namespace FlatTree

/-- The path of an observation that is a look-up. -/
def Observation.lookedUp? (observation : Observation) : Option Path :=
  match observation.event with
  | .lookedUp path => some path
  | .logged _ => none

namespace Table

/-- The table without those of its stale paths that were looked up. The root is
looked up without a glance at the table, so no entry under its path goes. -/
def sweep (table : Table) (looked : List Path) : List (Path × Option NodeId) :=
  table.entries.filter fun entry =>
    entry.2.isSome || entry.1 == Path.root || !looked.contains entry.1

theorem sweep_nil (table : Table) : table.sweep [] = table.entries := by
  unfold sweep
  rw [List.filter_eq_self]
  intro entry _
  simp

end Table

/-- What a call that is refused may leave of the state before it. -/
structure State.Spares (before after : State) : Prop where
  /-- Every node has the path, the kind and the content it had. -/
  heap : after.heap = before.heap
  /-- Settings, root and injected failure stay; only the table may differ. -/
  volume : after.volume = { before.volume with table := after.volume.table }
  /-- Every live path holds the node it held, in the order it had. -/
  live : after.volume.table.live = before.volume.table.live
  /-- The request in force is the one before, and so is every outer one. -/
  scopes : after.scopes = before.scopes
  /-- Nothing was logged. -/
  records : after.records = before.records
  /-- The table lost the stale paths that were looked up and nothing else. -/
  entries : ∃ seen, after.trace = before.trace ++ seen ∧
    after.volume.table.entries =
      before.volume.table.sweep (seen.filterMap Observation.lookedUp?)

namespace State

theorem Spares.refl (state : State) : state.Spares state where
  heap := rfl
  volume := rfl
  live := rfl
  scopes := rfl
  records := rfl
  entries := by
    exact ⟨[], by simp, (Table.sweep_nil state.volume.table).symm⟩

theorem entries_visit (state : State) (path : Path) :
    (state.visit path).volume.table.entries = state.volume.table.sweep [path] := by
  rw [table_visit]
  unfold Table.sweep
  split
  case isTrue hlive =>
    symm
    rw [List.filter_eq_self]
    intro entry member
    by_cases hroot : entry.1 = Path.root
    · simp [hroot]
    · by_cases hsame : entry.1 = path
      · subst path
        simp only [Volume.live?, if_neg hroot, Table.live?] at hlive
        rw [Table.find?_of_mem member] at hlive
        simpa using Or.inl hlive
      · simp [hsame]
  case isFalse habsent =>
    simp only [Volume.live?] at habsent
    split at habsent
    · simp at habsent
    · rename_i hroot
      apply List.filter_congr
      intro entry member
      by_cases hsame : entry.1 = path
      · subst path
        simp only [Table.live?, Table.find?_of_mem member] at habsent
        simpa [hroot] using habsent
      · simp [hsame]

theorem trace_visit (state : State) (path : Path) :
    (state.visit path).trace = state.trace ++ [state.observation (.lookedUp path)] := by
  unfold visit
  split <;> rfl

theorem live_visitAll (state : State) (trail : List Path) :
    (state.visitAll trail).volume.table.live = state.volume.table.live := by
  induction trail generalizing state with
  | nil => rfl
  | cons path rest ih => exact (ih _).trans (live_visit state path)

theorem volume_visitAll (state : State) (trail : List Path) :
    (state.visitAll trail).volume =
      { state.volume with table := (state.visitAll trail).volume.table } := by
  induction trail generalizing state with
  | nil => rfl
  | cons path rest ih =>
      have hrest := ih (state.visit path)
      have hpath := volume_visit state path
      change ((state.visit path).visitAll rest).volume = _
      rw [hrest, hpath]
      rfl

/-- The look-ups of a trail are seen one by one, and each takes its path out of
the table if the path is stale. -/
theorem entries_visitAll (state : State) (trail : List Path) :
    ∃ seen, (state.visitAll trail).trace = state.trace ++ seen ∧
      seen.filterMap Observation.lookedUp? = trail ∧
      seen.filterMap Observation.record? = [] ∧
      (state.visitAll trail).volume.table.entries = state.volume.table.sweep trail := by
  induction trail generalizing state with
  | nil => exact ⟨[], by simp, rfl, rfl, (Table.sweep_nil state.volume.table).symm⟩
  | cons path rest ih =>
      obtain ⟨seen, htrace, hlooked, hrecords, hentries⟩ := ih (state.visit path)
      refine ⟨state.observation (.lookedUp path) :: seen, ?_, ?_, ?_, ?_⟩
      · change ((state.visit path).visitAll rest).trace = _
        rw [htrace, trace_visit, List.append_assoc]
        rfl
      · simp [observation, Observation.lookedUp?, hlooked]
      · rw [List.filterMap_cons, hrecords]
        rfl
      · change ((state.visit path).visitAll rest).volume.table.entries = _
        rw [hentries]
        unfold Table.sweep
        rw [entries_visit]
        unfold Table.sweep
        rw [List.filter_filter]
        apply List.filter_congr
        intro entry _
        by_cases hsame : entry.1 = path
        · simp only [hsame, List.contains_cons, List.contains_nil, BEq.rfl, Bool.true_or,
            Bool.not_true, Bool.or_false]
          cases entry.2.isSome || path == Path.root <;> simp
        · simp [hsame]

/-- Look-ups made while a request is in force spare the state. -/
theorem spares_during_visitAll (state : State) (request : Request) (trail : List Path) :
    state.Spares (state.during request (·.visitAll trail)) := by
  let entered : State := { state with scopes := request :: state.scopes }
  obtain ⟨seen, htrace, hlooked, hrecords, hentries⟩ := entries_visitAll entered trail
  exact
    { heap := heap_visitAll entered trail
      volume := volume_visitAll entered trail
      live := live_visitAll entered trail
      scopes := rfl
      records := by
        have hsplit : (state.during request (·.visitAll trail)).records =
            (state.trace ++ seen).filterMap Observation.record? :=
          congrArg (List.filterMap Observation.record?) htrace
        rw [hsplit, List.filterMap_append, hrecords, List.append_nil]
        rfl
      entries := ⟨seen, htrace, by rw [hlooked]; exact hentries⟩ }

end State

/-- Failure atomicity: from any state, a call that is refused spares the state,
and one that is refused with the injected failure does not change it at all. -/
theorem refused_call_spares_state (call : Call) (before after : State) (refusal : Refusal)
    (h : call.run before = .error refusal after) :
    before.Spares after ∧ ∀ failure, refusal = .injected failure → after = before := by
  rw [Call.run_eq] at h
  cases hinjected : before.volume.injected with
  | some failure =>
      simp only [hinjected] at h
      obtain ⟨rfl, rfl⟩ := h
      exact ⟨State.Spares.refl before, fun _ _ => rfl⟩
  | none =>
      simp only [hinjected] at h
      cases houtcome : (call.plan before.volume.tidy before.heap).outcome with
      | ok planned =>
          simp only [houtcome] at h
          cases h
      | error fault =>
          simp only [houtcome] at h
          obtain ⟨rfl, rfl⟩ := h
          refine ⟨State.spares_during_visitAll before call.request _, ?_⟩
          intro failure hcontra
          cases hcontra

/-- A store with a link to a path that is stale. -/
def staleLink : State :=
  let start := State.start { hopLimit := some (.whole 2) }
  let made := start.commit
    (.add { path := ['/', 'l'], target := ['/', 'o'] } (.symlinked ['/', 'l'] ['/', 'o']))
  made.changeTable (·.insert ['/', 'o'] none)

/-- Reading through the link is refused at the stale path, and spares the store. -/
theorem staleLink_read_spares :
    let call : Call := ⟨.read, { method := .get, path := ['/', 'l'] }⟩
    call.answer staleLink = .error (.fault (.notFound ['/', 'o'])) ∧
      staleLink.Spares (staleLink.serve call) := by
  intro call
  have hanswer : call.answer staleLink = .error (.fault (.notFound ['/', 'o'])) := by
    rfl
  refine ⟨hanswer, ?_⟩
  unfold State.serve
  unfold Call.answer at hanswer
  cases hrun : call.run staleLink with
  | ok reply after => simp [hrun] at hanswer
  | error refusal after =>
      exact (refused_call_spares_state call staleLink after refusal hrun).1

end FlatTree
