import FlatTree.Proofs.Atomicity
import FlatTree.Proofs.Representation

/-!
Stale paths. A store with stale paths and the store without them are the same to
every call: the call answers alike, sees and logs alike, and leaves stores that
agree (`State.Agrees`). No call makes a path stale. All that a stale path decides
is the order of the entries, for an entry that is put under one takes its place;
so from one call to the next it is the live entries that have to be the same, and
not the tables. But for stale paths, an answered call leaves what its planned change
makes of the state, from any state at all (`State.agrees_of_answer_ok`).
-/

namespace FlatTree

namespace Table

variable {table other : Table} {path key : Path}

/-- The path stands in the table and has no node. -/
def Stale (table : Table) (path : Path) : Prop := table.find? path = some none

theorem Stale.of_erase (h : (table.erase path).Stale key) : table.Stale key := by
  unfold Stale at h ⊢
  rw [find?_erase] at h
  split at h
  · cases h
  · exact h

theorem Stale.of_insert {id : NodeId} (h : (table.insert path (some id)).Stale key) :
    table.Stale key := by
  unfold Stale at h ⊢
  rw [find?_insert] at h
  split at h
  · cases h
  · exact h

theorem Stale.of_foldl_erase {moves : List Move}
    (h : (moves.foldl (fun table move => table.erase move.source) table).Stale key) :
    table.Stale key := by
  induction moves generalizing table with
  | nil => exact h
  | cons move rest ih => exact (ih h).of_erase

theorem Stale.of_foldl_insert {moves : List Move}
    (h : (moves.foldl
      (fun table move => table.insert move.target (some move.id)) table).Stale key) :
    table.Stale key := by
  induction moves generalizing table with
  | nil => exact h
  | cons move rest ih => exact (ih h).of_insert

theorem Stale.of_relocate {moves : List Move} (h : (table.relocate moves).Stale key) :
    table.Stale key :=
  (Stale.of_foldl_insert h).of_foldl_erase

theorem Tidy.not_stale (h : table.Tidy) : ¬table.Stale path := by
  unfold Stale
  rw [h.find?_eq]
  cases table.live? path <;> simp

theorem tidy_tidy (table : Table) : table.tidy.Tidy :=
  fun _ member => (List.mem_filter.mp member).2

theorem live?_erase_congr (h : table.live? = other.live?) (path : Path) :
    (table.erase path).live? = (other.erase path).live? := by
  funext key
  rw [live?_erase, live?_erase, h]

theorem live?_insert_congr (h : table.live? = other.live?) (path : Path) (id : NodeId) :
    (table.insert path (some id)).live? = (other.insert path (some id)).live? := by
  funext key
  rw [live?_insert, live?_insert, h]

theorem live?_foldl_insert_congr (h : table.live? = other.live?) (moves : List Move) :
    (moves.foldl (fun table move => table.insert move.target (some move.id)) table).live? =
      (moves.foldl
        (fun table move => table.insert move.target (some move.id)) other).live? := by
  induction moves generalizing table other with
  | nil => exact h
  | cons move rest ih => exact ih (live?_insert_congr h move.target move.id)

theorem live?_relocate_congr (h : table.live? = other.live?) (moves : List Move) :
    (table.relocate moves).live? = (other.relocate moves).live? := by
  apply live?_foldl_insert_congr
  funext key
  rw [live?_foldl_erase, live?_foldl_erase, h]

end Table

/-- Two states of one store, but for stale paths and for the order of the entries. -/
structure State.Agrees (first second : State) : Prop where
  heap : first.heap = second.heap
  settings : first.volume.settings = second.volume.settings
  root : first.volume.root = second.volume.root
  injected : first.volume.injected = second.volume.injected
  live : first.volume.table.live? = second.volume.table.live?

/-- What is seen of an observation but the table. -/
def Observation.untabled (observation : Observation) : Event × Option Request × Heap :=
  (observation.event, observation.current, observation.heap)

/-- Two states of one store with the same requests in force, in which the same
events were observed over the same nodes. -/
structure State.Echoes (first second : State) : Prop extends first.Agrees second where
  scopes : first.scopes = second.scopes
  seen : first.trace.map Observation.untabled = second.trace.map Observation.untabled

namespace State

variable {state first second : State} {path : Path}

namespace Agrees

variable (h : first.Agrees second)

include h

theorem trans {third : State} (h' : second.Agrees third) : first.Agrees third where
  heap := h.heap.trans h'.heap
  settings := h.settings.trans h'.settings
  root := h.root.trans h'.root
  injected := h.injected.trans h'.injected
  live := h.live.trans h'.live

theorem live? : first.volume.live? = second.volume.live? := by
  funext path
  unfold Volume.live?
  rw [h.root, h.live]

theorem changeTable {change : Table → Table}
    (hlive : (change first.volume.table).live? = (change second.volume.table).live?) :
    (first.changeTable change).Agrees (second.changeTable change) :=
  { h with live := hlive }

theorem purge (path : Path) : (first.purge path).Agrees (second.purge path) :=
  h.changeTable (Table.live?_erase_congr h.live path)

theorem observe (events : List Event) :
    (first.observe events).Agrees (second.observe events) :=
  { h with }

/-- A change makes the same of one store. -/
theorem commit (change : Change) : (first.commit change).Agrees (second.commit change) := by
  cases change with
  | keep => exact h
  | rewrite id node =>
      exact { h with heap := by simp only [State.commit, h.heap] }
  | add node record =>
      exact
        { h with
          heap := by simp only [State.commit, State.observe, State.changeTable, h.heap, h.settings]
          live := by
            simp only [State.commit, State.observe, State.changeTable, h.heap]
            exact Table.live?_insert_congr h.live node.path _ }
  | share target path id =>
      exact (h.changeTable (Table.live?_insert_congr h.live target id)).observe _
  | move source target moves =>
      exact
        { h with
          heap := by simp only [State.commit, State.observe, State.relocate, h.heap]
          live := Table.live?_relocate_congr h.live moves }
  | remove path =>
      simp only [State.commit, h.live]
      split
      · exact (h.purge path).observe _
      · exact h.purge path

end Agrees

namespace Echoes

variable (h : first.Echoes second)

include h

theorem observe (events : List Event) :
    (first.observe events).Echoes (second.observe events) where
  toAgrees := h.toAgrees.observe events
  scopes := h.scopes
  seen := by
    have hevent : ∀ event, (first.observation event).untabled =
        (second.observation event).untabled := by
      intro event
      simp only [Observation.untabled, observation, current, h.scopes, h.heap]
    simp only [State.observe, List.map_append, List.map_map, h.seen, Function.comp_def, hevent]

theorem visit (path : Path) : (first.visit path).Echoes (second.visit path) := by
  have hseen := h.observe [.lookedUp path]
  simp only [State.visit, h.live?]
  split
  · exact hseen
  · exact { hseen with toAgrees := hseen.toAgrees.purge path }

theorem visitAll (trail : List Path) :
    (first.visitAll trail).Echoes (second.visitAll trail) := by
  induction trail generalizing first second with
  | nil => exact h
  | cons path rest ih => exact ih (h.visit path)

/-- A change is seen as the same change. -/
theorem commit (change : Change) : (first.commit change).Echoes (second.commit change) := by
  have hagrees := h.toAgrees.commit change
  cases change with
  | keep => exact h
  | rewrite id node => exact { h with toAgrees := hagrees }
  | add node record =>
      -- The record is logged of the store that has the new node already.
      have hmade : State.Echoes
          ({ first with heap := (first.commit (.add node record)).heap,
                        volume := (first.commit (.add node record)).volume })
          ({ second with heap := (second.commit (.add node record)).heap,
                         volume := (second.commit (.add node record)).volume }) :=
        { h with toAgrees := { hagrees with } }
      exact hmade.observe [.logged record]
  | share target path id =>
      have hput : State.Echoes (first.changeTable (·.insert target (some id)))
          (second.changeTable (·.insert target (some id))) :=
        { h with toAgrees := { hagrees with } }
      exact hput.observe [.logged (.linked target path)]
  | move source target moves =>
      have hmoved : State.Echoes (first.relocate moves) (second.relocate moves) :=
        { h with toAgrees := { hagrees with } }
      exact hmoved.observe [.logged (.renamed source target)]
  | remove path =>
      have hgone : State.Echoes (first.purge path) (second.purge path) :=
        { h with toAgrees := h.toAgrees.purge path }
      simp only [State.commit, h.live]
      split
      · exact hgone.observe [.logged (.removed path)]
      · exact hgone

/-- Work that makes the same of states that are the same does so while a request is in
force. -/
theorem during (request : Request) {work : State → State}
    (hwork : ∀ {first second : State}, first.Echoes second →
      (work first).Echoes (work second)) :
    (first.during request work).Echoes (second.during request work) := by
  have hentered : State.Echoes ({ first with scopes := request :: first.scopes })
      ({ second with scopes := request :: second.scopes }) :=
    { h with toAgrees := { h.toAgrees with }, scopes := by rw [h.scopes] }
  have hdone := hwork hentered
  exact { hdone with toAgrees := { hdone.toAgrees with }, scopes := h.scopes }

/-- A call makes the same of states with the same live entries in the same order. -/
theorem serve (htidy : first.volume.tidy = second.volume.tidy) (call : Call) :
    call.answer first = call.answer second ∧
      (first.serve call).Echoes (second.serve call) := by
  unfold Call.answer State.serve
  rw [Call.run_eq, Call.run_eq, h.injected, htidy, h.heap]
  cases second.volume.injected with
  | some failure => exact ⟨rfl, h⟩
  | none =>
      simp only
      cases (call.plan second.volume.tidy second.heap).outcome with
      | error fault => exact ⟨rfl, h.during call.request fun h => h.visitAll _⟩
      | ok planned => exact ⟨rfl, h.during call.request fun h => (h.visitAll _).commit _⟩

end Echoes

/-- Look-ups make no difference but for stale paths. -/
theorem agrees_visitAll (state : State) (trail : List Path) :
    (state.visitAll trail).Agrees state where
  heap := heap_visitAll state trail
  settings := by rw [volume_visitAll]
  root := by rw [volume_visitAll]
  injected := by rw [volume_visitAll]
  live := Table.live?_congr (live_visitAll state trail)

/-- But for stale paths, looking paths up and making a change with a request in force leaves
what the change alone makes of the state. -/
theorem agrees_during (state : State) (request : Request) (trail : List Path)
    (change : Change) :
    (state.during request fun entered => (entered.visitAll trail).commit change).Agrees
      (state.commit change) := by
  let entered : State := { state with scopes := request :: state.scopes }
  have hentered : entered.Agrees state := ⟨rfl, rfl, rfl, rfl, rfl⟩
  have hmade := (entered.agrees_visitAll trail).commit change
  exact { hmade.trans (hentered.commit change) with }

/-- What spares a state agrees with it. -/
theorem Spares.agrees (h : first.Spares second) : second.Agrees first where
  heap := h.heap
  settings := by rw [h.volume]
  root := by rw [h.volume]
  injected := by rw [h.volume]
  live := Table.live?_congr h.live

theorem spares_of_answer_error {call : Call} {refusal : Refusal}
    (h : call.answer state = .error refusal) : state.Spares (state.serve call) := by
  cases hinjected : state.volume.injected with
  | some failure =>
      unfold serve
      rw [Call.run_eq, hinjected]
      exact Spares.refl state
  | none =>
      rw [answer_eq call hinjected] at h
      rw [serve_eq call hinjected]
      cases houtcome : (call.plan state.volume.tidy state.heap).outcome with
      | error fault => exact spares_during_visitAll state call.request _
      | ok planned =>
          rw [houtcome] at h
          cases h

theorem agrees_of_answer_error {call : Call} {refusal : Refusal}
    (h : call.answer state = .error refusal) : (state.serve call).Agrees state :=
  (spares_of_answer_error h).agrees

/-- An answered call has made the change that it planned, and no other difference but
for stale paths. -/
theorem agrees_of_answer_ok {call : Call} {reply : Reply}
    (h : call.answer state = .ok reply) :
    ∃ change, state.volume.injected = none ∧
      (call.plan state.volume.tidy state.heap).outcome = .ok (reply, change) ∧
      (state.serve call).Agrees (state.commit change) := by
  cases hinjected : state.volume.injected with
  | some failure =>
      unfold Call.answer at h
      rw [Call.run_eq, hinjected] at h
      cases h
  | none =>
      rw [answer_eq call hinjected] at h
      rw [serve_eq call hinjected]
      cases houtcome : (call.plan state.volume.tidy state.heap).outcome with
      | error fault =>
          rw [houtcome] at h
          cases h
      | ok planned =>
          rw [houtcome] at h
          obtain ⟨found, change⟩ := planned
          cases h
          exact ⟨change, rfl, rfl, state.agrees_during call.request _ change⟩

/-- But for stale paths, a call leaves what one change makes of the state. -/
theorem exists_agrees_commit (state : State) (call : Call) :
    ∃ change, (state.serve call).Agrees (state.commit change) := by
  cases hanswer : call.answer state with
  | error refusal => exact ⟨.keep, agrees_of_answer_error hanswer⟩
  | ok reply =>
      obtain ⟨change, -, -, hagrees⟩ := agrees_of_answer_ok hanswer
      exact ⟨change, hagrees⟩

/-- No call changes the settings of a store. -/
theorem settings_serve (state : State) (call : Call) :
    (state.serve call).volume.settings = state.volume.settings := by
  obtain ⟨change, hagrees⟩ := exists_agrees_commit state call
  exact hagrees.settings.trans (settings_commit state change)

theorem root_serve (state : State) (call : Call) :
    (state.serve call).volume.root = state.volume.root := by
  obtain ⟨change, hagrees⟩ := exists_agrees_commit state call
  exact hagrees.root.trans (root_commit state change)

/-- Nor does a call change which failure is injected. -/
theorem injected_serve (state : State) (call : Call) :
    (state.serve call).volume.injected = state.volume.injected := by
  obtain ⟨change, hagrees⟩ := exists_agrees_commit state call
  exact hagrees.injected.trans (injected_commit state change)

theorem settings_run (state : State) (calls : List Call) :
    (state.run calls).volume.settings = state.volume.settings :=
  run_induction (motive := fun after => after.volume.settings = state.volume.settings)
    state calls rfl fun between call h => (settings_serve between call).trans h

/-- The state in which all stale paths are gone from the table. -/
def tidied (state : State) : State := { state with volume := state.volume.tidy }

theorem echoes_tidied (state : State) : state.Echoes state.tidied where
  heap := rfl
  settings := rfl
  root := rfl
  injected := rfl
  live := (Table.live?_tidy state.volume.table).symm
  scopes := rfl
  seen := rfl

theorem tidy_tidied (state : State) : state.volume.tidy = state.tidied.volume.tidy := by
  change state.volume.tidy = state.volume.tidy.tidy
  simp only [Volume.tidy, Table.tidy_congr (Table.live_tidy state.volume.table)]

theorem Echoes.records (h : first.Echoes second) : first.records = second.records := by
  -- A record is read off the event, so any table will do.
  have hrecord : ∀ trace : List Observation, trace.filterMap Observation.record? =
      (trace.map Observation.untabled).filterMap fun seen =>
        Observation.record? ⟨seen.1, seen.2.1, seen.2.2, .empty⟩ := by
    intro trace
    rw [List.filterMap_map]
    rfl
  unfold State.records
  rw [hrecord, hrecord, h.seen]

theorem stale_of_visitAll {trail : List Path}
    (h : (state.visitAll trail).volume.table.Stale path) : state.volume.table.Stale path := by
  induction trail generalizing state with
  | nil => exact h
  | cons first rest ih =>
      have hvisited : (state.visit first).volume.table.Stale path := ih h
      rw [table_visit] at hvisited
      split at hvisited
      · exact hvisited
      · exact hvisited.of_erase

theorem stale_of_commit {change : Change}
    (h : (state.commit change).volume.table.Stale path) : state.volume.table.Stale path := by
  cases change with
  | keep => exact h
  | rewrite id node => exact h
  | add node record => exact Table.Stale.of_insert h
  | share target path id => exact Table.Stale.of_insert h
  | move source target moves => exact Table.Stale.of_relocate h
  | remove path =>
      simp only [commit] at h
      split at h
      · exact Table.Stale.of_erase h
      · exact Table.Stale.of_erase h

/-- No call makes a path stale. -/
theorem stale_of_serve {call : Call} (h : (state.serve call).volume.table.Stale path) :
    state.volume.table.Stale path := by
  unfold serve at h
  rw [Call.run_eq] at h
  cases hinjected : state.volume.injected with
  | some failure =>
      rw [hinjected] at h
      exact h
  | none =>
      rw [hinjected] at h
      simp only at h
      let entered : State := { state with scopes := call.request :: state.scopes }
      cases houtcome : (call.plan state.volume.tidy state.heap).outcome with
      | error fault =>
          rw [houtcome] at h
          have hseen : (entered.visitAll _).volume.table.Stale path := h
          have hbefore := stale_of_visitAll hseen
          exact hbefore
      | ok planned =>
          rw [houtcome] at h
          have hmade : ((entered.visitAll _).commit _).volume.table.Stale path := h
          have hbefore := stale_of_visitAll (stale_of_commit hmade)
          exact hbefore

/-- Stale paths are unobservable. From any state, a call does what it does from the
state without its stale paths: it gives the same answer or is refused alike, sees the
same events over the same nodes and logs the same records, and leaves the same nodes
and the same live entries. And a path that is stale after a call was stale before it. -/
theorem stale_paths_unobservable (state : State) (call : Call) :
    let after := state.serve call
    let tidied := state.tidied.serve call
    (∀ path, ¬state.tidied.volume.table.Stale path) ∧
      (∀ path, state.tidied.volume.table.live? path = state.volume.table.live? path) ∧
      call.answer state = call.answer state.tidied ∧
      after.records = tidied.records ∧
      after.trace.map Observation.untabled = tidied.trace.map Observation.untabled ∧
      (∀ id, after.node id = tidied.node id) ∧
      (∀ path, after.volume.table.live? path = tidied.volume.table.live? path) ∧
      (∀ path, after.volume.table.Stale path → state.volume.table.Stale path) ∧
      ∀ path, ¬tidied.volume.table.Stale path := by
  intro after tidied
  obtain ⟨hanswer, hechoes⟩ := (echoes_tidied state).serve (tidy_tidied state) call
  have hclean : ∀ path, ¬state.tidied.volume.table.Stale path :=
    fun path => (Table.tidy_tidy state.volume.table).not_stale
  refine ⟨hclean, fun path => (congrFun (echoes_tidied state).live path).symm, hanswer,
    hechoes.records, hechoes.seen, fun id => ?_, congrFun hechoes.live,
    fun path => stale_of_serve, fun path hstale => hclean path (stale_of_serve hstale)⟩
  unfold node
  rw [hechoes.heap]

/-- A store with a stale path and then a file. -/
def staleBeforeFile : State :=
  ((State.start {}).changeTable (·.insert ['/', 'o'] none)).commit
    (.add { path := ['/', 'a'] } (.fileCreated ['/', 'a']))

/-- A new directory takes the place of the stale path before the file, and comes after
the file when there is no stale path. The live entries are the same. -/
theorem stale_path_taken_over :
    let call : Call := ⟨.command, { method := .mkdir, path := ['/', 'o'] }⟩
    let after := staleBeforeFile.serve call
    let tidied := staleBeforeFile.tidied.serve call
    staleBeforeFile.volume.table.Stale ['/', 'o'] ∧
      call.answer staleBeforeFile = .ok .done ∧
      call.answer staleBeforeFile.tidied = .ok .done ∧
      after.volume.table.paths = [['/', 'o'], ['/', 'a']] ∧
      tidied.volume.table.paths = [['/', 'a'], ['/', 'o']] ∧
      (∀ path, after.volume.table.live? path = tidied.volume.table.live? path) ∧
      ¬after.volume.table.Stale ['/', 'o'] := by
  intro call after tidied
  obtain ⟨-, -, hanswer, -, -, -, hlive, -, -⟩ := stale_paths_unobservable staleBeforeFile call
  have hstale : staleBeforeFile.volume.table.Stale ['/', 'o'] := by
    unfold Table.Stale
    decide +kernel
  have hanswered : call.answer staleBeforeFile = .ok .done := rfl
  refine ⟨hstale, hanswered, hanswer ▸ hanswered, by decide +kernel, by decide +kernel,
    hlive, ?_⟩
  unfold Table.Stale
  decide +kernel

end State

end FlatTree
