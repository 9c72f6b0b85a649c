import FlatTree.Server
import FlatTree.Proofs.LiveTable

/-!
Questions to a store. A question reads the live entries and the heap, looks
paths up on its way, and ends in an answer or in a fault. `Query.ask` puts a
question in the course of a call. Its only trace in the state is that of its
look-ups (`State.visitAll`): each is observed, and a path found stale is gone.
Putting two questions one after the other is putting their composition
(`Query.ask_bind`), because no look-up changes what a later one answers.
-/

namespace FlatTree

namespace Volume

/-- The volume without its stale paths. -/
def tidy (volume : Volume) : Volume :=
  { volume with table := volume.table.tidy }

@[simp] theorem settings_tidy (volume : Volume) :
    volume.tidy.settings = volume.settings := rfl

@[simp] theorem root_tidy (volume : Volume) :
    volume.tidy.root = volume.root := rfl

@[simp] theorem live?_tidy (volume : Volume) (path : Path) :
    volume.tidy.live? path = volume.live? path := by
  simp [live?, tidy]

@[simp] theorem occupied_tidy (volume : Volume) (path : Path) :
    volume.tidy.occupied path = volume.occupied path := by
  simp [occupied]

@[simp] theorem children_tidy (volume : Volume) (parent : Path) :
    volume.tidy.children parent = volume.children parent := by
  simp [children, tidy]

@[simp] theorem below_tidy (volume : Volume) (path : Path) :
    volume.tidy.below path = volume.below path := by
  simp [below, tidy]

@[simp] theorem moves_tidy (volume : Volume) (id : NodeId) (isDirectory : Bool)
    (source target : Path) :
    volume.tidy.moves id isDirectory source target =
      volume.moves id isDirectory source target := by
  simp [moves]

/-- A search reads nothing of a volume but which node each path has. -/
theorem search_congr {volume other : Volume} (heap : Heap)
    (h : volume.live? = other.live?) (hops : Nat) (path : Path) :
    volume.search heap hops path = other.search heap hops path := by
  induction hops generalizing path with
  | zero =>
      unfold search
      rw [h]
  | succ hops ih =>
      unfold search
      rw [h]
      simp only [ih]

@[simp] theorem resolve_tidy (volume : Volume) (heap : Heap) (path : Path) :
    volume.tidy.resolve heap path = volume.resolve heap path := by
  have hlive : volume.tidy.live? = volume.live? := by
    funext other
    exact live?_tidy volume other
  simp only [resolve, enoughHops, settings_tidy, search_congr heap hlive]
  simp [tidy]

@[simp] theorem stopFault_tidy (volume : Volume) (path : Path) :
    volume.tidy.stopFault path = volume.stopFault path := rfl

theorem search_of_absent {volume : Volume} (heap : Heap) (hops : Nat) {path : Path}
    (h : volume.live? path = none) :
    volume.search heap hops path = ⟨[path], .missing path⟩ := by
  unfold search
  rw [h]

theorem search_of_not_isLink {volume : Volume} {heap : Heap} (hops : Nat)
    {path : Path} {id : NodeId} (h : volume.live? path = some id)
    (hlink : (heap.get id).isLink = false) :
    volume.search heap hops path = ⟨[path], .found id⟩ := by
  unfold search
  simp [h, hlink]

theorem search_zero_of_isLink {volume : Volume} {heap : Heap} {path : Path}
    {id : NodeId} (h : volume.live? path = some id)
    (hlink : (heap.get id).isLink = true) :
    volume.search heap 0 path = ⟨[path], .stopped⟩ := by
  unfold search
  simp [h, hlink]

theorem search_succ_of_isLink {volume : Volume} {heap : Heap} (hops : Nat)
    {path : Path} {id : NodeId} (h : volume.live? path = some id)
    (hlink : (heap.get id).isLink = true) :
    volume.search heap (hops + 1) path =
      ⟨path :: (volume.search heap hops (heap.get id).target).trail,
        (volume.search heap hops (heap.get id).target).resolution⟩ := by
  rw [search]
  simp [h, hlink]

/-- A search ends at once, at a free path or at a node that is no link, or it goes
on from the target of a link if there is a hop left. -/
theorem search_cases (volume : Volume) (heap : Heap) (path : Path) :
    (volume.live? path = none ∧
        ∀ hops, volume.search heap hops path = ⟨[path], .missing path⟩) ∨
      (∃ id, volume.live? path = some id ∧ (heap.get id).isLink = false ∧
        ∀ hops, volume.search heap hops path = ⟨[path], .found id⟩) ∨
      (∃ id, volume.live? path = some id ∧ (heap.get id).isLink = true ∧
        volume.search heap 0 path = ⟨[path], .stopped⟩ ∧
        ∀ hops, volume.search heap (hops + 1) path =
          ⟨path :: (volume.search heap hops (heap.get id).target).trail,
            (volume.search heap hops (heap.get id).target).resolution⟩) := by
  cases hlive : volume.live? path with
  | none => exact Or.inl ⟨rfl, fun hops => search_of_absent heap hops hlive⟩
  | some id =>
      cases hlink : (heap.get id).isLink with
      | false =>
          exact Or.inr (Or.inl ⟨id, rfl, hlink,
            fun hops => search_of_not_isLink hops hlive hlink⟩)
      | true =>
          exact Or.inr (Or.inr ⟨id, rfl, hlink, search_zero_of_isLink hlive hlink,
            fun hops => search_succ_of_isLink hops hlive hlink⟩)

/-- Induction along a search, from where it ends back to where it starts. -/
theorem search_induction (volume : Volume) (heap : Heap)
    {motive : Nat → Path → Search → Prop}
    (absent : ∀ hops path, volume.live? path = none →
      motive hops path ⟨[path], .missing path⟩)
    (found : ∀ hops path id, volume.live? path = some id → (heap.get id).isLink = false →
      motive hops path ⟨[path], .found id⟩)
    (stopped : ∀ path id, volume.live? path = some id → (heap.get id).isLink = true →
      motive 0 path ⟨[path], .stopped⟩)
    (step : ∀ hops path id, volume.live? path = some id → (heap.get id).isLink = true →
      motive hops (heap.get id).target (volume.search heap hops (heap.get id).target) →
        motive (hops + 1) path
          ⟨path :: (volume.search heap hops (heap.get id).target).trail,
            (volume.search heap hops (heap.get id).target).resolution⟩)
    (hops : Nat) (path : Path) : motive hops path (volume.search heap hops path) := by
  induction hops generalizing path with
  | zero =>
      rcases volume.search_cases heap path with
        ⟨hnone, hend⟩ | ⟨id, hlive, hlink, hend⟩ | ⟨id, hlive, hlink, hzero, -⟩
      · rw [hend]
        exact absent 0 path hnone
      · rw [hend]
        exact found 0 path id hlive hlink
      · rw [hzero]
        exact stopped path id hlive hlink
  | succ hops ih =>
      rcases volume.search_cases heap path with
        ⟨hnone, hend⟩ | ⟨id, hlive, hlink, hend⟩ | ⟨id, hlive, hlink, -, hsucc⟩
      · rw [hend]
        exact absent _ path hnone
      · rw [hend]
        exact found _ path id hlive hlink
      · rw [hsucc]
        exact step hops path id hlive hlink (ih _)

/-- Every path of a search has a node, but for the one where it goes missing,
and that one is the last. -/
theorem search_trail (volume : Volume) (heap : Heap) (hops : Nat) (path : Path) :
    match (volume.search heap hops path).resolution with
    | .missing stop => volume.live? stop = none ∧
        ∃ before, (volume.search heap hops path).trail = before ++ [stop] ∧
          ∀ other ∈ before, (volume.live? other).isSome = true
    | _ => ∀ other ∈ (volume.search heap hops path).trail,
        (volume.live? other).isSome = true := by
  refine volume.search_induction heap (motive := fun _ _ search =>
    match search.resolution with
    | .missing stop => volume.live? stop = none ∧
        ∃ before, search.trail = before ++ [stop] ∧
          ∀ other ∈ before, (volume.live? other).isSome = true
    | _ => ∀ other ∈ search.trail, (volume.live? other).isSome = true)
    ?_ ?_ ?_ ?_ hops path
  · intro _ path hnone
    exact ⟨hnone, [], rfl, by simp⟩
  · intro _ path id hlive _
    simp [hlive]
  · intro path id hlive _
    simp [hlive]
  · intro hops path id hlive _ hrest
    cases hend : (volume.search heap hops (heap.get id).target).resolution with
    | missing stop =>
        simp only [hend] at hrest ⊢
        obtain ⟨hstop, before, htrail, hbefore⟩ := hrest
        refine ⟨hstop, path :: before, by simp [htrail], ?_⟩
        intro other member
        rcases List.mem_cons.mp member with rfl | inner
        · simp [hlive]
        · exact hbefore other inner
    | found _ | stopped =>
        simp only [hend] at hrest ⊢
        intro other member
        rcases List.mem_cons.mp member with rfl | inner
        · simp [hlive]
        · exact hrest other inner

theorem resolve_trail (volume : Volume) (heap : Heap) (path : Path) :
    match (volume.resolve heap path).resolution with
    | .missing stop => volume.live? stop = none ∧
        ∃ before, (volume.resolve heap path).trail = before ++ [stop] ∧
          ∀ other ∈ before, (volume.live? other).isSome = true
    | _ => ∀ other ∈ (volume.resolve heap path).trail,
        (volume.live? other).isSome = true :=
  volume.search_trail heap _ path

end Volume

namespace State

/-- The state after a path was looked up: the look-up is observed, and a path
without a node is taken out. -/
def visit (state : State) (path : Path) : State :=
  let seen := state.observe [.lookedUp path]
  if (state.volume.live? path).isSome then seen else seen.purge path

/-- The state after several paths were looked up. -/
def visitAll (state : State) (trail : List Path) : State :=
  trail.foldl visit state

@[simp] theorem visitAll_nil (state : State) : state.visitAll [] = state := rfl

theorem visitAll_append (state : State) (first second : List Path) :
    state.visitAll (first ++ second) = (state.visitAll first).visitAll second := by
  simp [visitAll]

@[simp] theorem visitAll_singleton (state : State) (path : Path) :
    state.visitAll [path] = state.visit path := rfl

theorem observe_append (state : State) (first second : List Event) :
    (state.observe first).observe second = state.observe (first ++ second) := by
  simp only [observe, List.map_append, List.append_assoc]
  rfl

theorem visitAll_of_live (state : State) (trail : List Path)
    (h : ∀ path ∈ trail, (state.volume.live? path).isSome = true) :
    state.visitAll trail = state.observe (trail.map .lookedUp) := by
  induction trail generalizing state with
  | nil => simp [visitAll, observe]
  | cons path rest ih =>
      have hvisit : state.visit path = state.observe [.lookedUp path] := by
        simp [visit, h path (by simp)]
      have hrest := ih (state.observe [.lookedUp path])
        fun other member => h other (by simp [member])
      have hsplit : state.visitAll (path :: rest) =
          (state.visit path).visitAll rest := rfl
      rw [hsplit, hvisit, hrest, observe_append]
      rfl

@[simp] theorem heap_visit (state : State) (path : Path) :
    (state.visit path).heap = state.heap := by
  unfold visit
  split <;> rfl

/-- A look-up changes the table of a volume and nothing else of it. -/
theorem volume_visit (state : State) (path : Path) :
    (state.visit path).volume =
      { state.volume with table := (state.visit path).volume.table } := by
  unfold visit
  split <;> rfl

theorem table_visit (state : State) (path : Path) :
    (state.visit path).volume.table =
      if (state.volume.live? path).isSome then state.volume.table
      else state.volume.table.erase path := by
  unfold visit
  split <;> rfl

theorem live_visit (state : State) (path : Path) :
    (state.visit path).volume.table.live = state.volume.table.live := by
  rw [table_visit]
  split
  case isTrue => rfl
  case isFalse habsent =>
    apply Table.live_erase_of_live?_eq_none
    simp only [Volume.live?] at habsent
    split at habsent
    · simp at habsent
    · simpa using habsent

@[simp] theorem volume_tidy_visit (state : State) (path : Path) :
    (state.visit path).volume.tidy = state.volume.tidy := by
  rw [volume_visit]
  simp only [Volume.tidy, Table.tidy_congr (live_visit state path)]

@[simp] theorem heap_visitAll (state : State) (trail : List Path) :
    (state.visitAll trail).heap = state.heap := by
  induction trail generalizing state with
  | nil => rfl
  | cons path rest ih => exact (ih _).trans (heap_visit state path)

@[simp] theorem volume_tidy_visitAll (state : State) (trail : List Path) :
    (state.visitAll trail).volume.tidy = state.volume.tidy := by
  induction trail generalizing state with
  | nil => rfl
  | cons path rest ih => exact (ih _).trans (volume_tidy_visit state path)

end State

/-- What came of a question: the paths that were looked up, first to last, and
the answer or the fault. -/
structure Finding (α : Type) where
  trail : List Path
  outcome : Except Fault α

/-- A question to a volume without stale paths and to a heap. -/
def Query (α : Type) := Volume → Heap → Finding α

namespace Query

variable {α β : Type}

instance : Monad Query where
  pure value := fun _ _ => ⟨[], .ok value⟩
  bind query next := fun volume heap =>
    match (query volume heap).outcome with
    | .ok value =>
        ⟨(query volume heap).trail ++ (next value volume heap).trail,
          (next value volume heap).outcome⟩
    | .error fault => ⟨(query volume heap).trail, .error fault⟩

def refuse (fault : Fault) : Query α := fun _ _ => ⟨[], .error fault⟩

def node (id : NodeId) : Query Node := fun _ heap => ⟨[], .ok (heap.get id)⟩

def volume : Query Volume := fun volume _ => ⟨[], .ok volume⟩

/-- The number that the next new node gets. -/
def fresh : Query NodeId := fun _ heap => ⟨[], .ok ⟨heap.size⟩⟩

def seek (path : Path) : Query (Option NodeId) := fun volume _ =>
  ⟨[path], .ok (volume.live? path)⟩

def lookUp (path : Path) : Query NodeId := fun volume _ =>
  match volume.live? path with
  | some id => ⟨[path], .ok id⟩
  | none => ⟨[path], .error (.notFound path)⟩

def resolve (path : Path) : Query NodeId := fun volume heap =>
  let search := volume.resolve heap path
  match search.resolution with
  | .found id => ⟨search.trail, .ok id⟩
  | .missing stop => ⟨search.trail, .error (.notFound stop)⟩
  | .stopped => ⟨search.trail, .error (volume.stopFault path)⟩

/-- A value, or the fault given instead. -/
def orRefuse (result : Except Fault α) : Query α := fun _ _ => ⟨[], result⟩

/-- Puts a question in the course of a call. -/
def ask (query : Query α) : Act α := fun state =>
  let finding := query state.volume.tidy state.heap
  match finding.outcome with
  | .ok value => .ok value (state.visitAll finding.trail)
  | .error fault => .error (.fault fault) (state.visitAll finding.trail)

theorem outcome_pure (value : α) (volume : Volume) (heap : Heap) :
    ((pure value : Query α) volume heap).outcome = .ok value := rfl

theorem outcome_bind (query : Query α) (next : α → Query β) (volume : Volume)
    (heap : Heap) :
    ((query >>= next) volume heap).outcome =
      match (query volume heap).outcome with
      | .ok value => (next value volume heap).outcome
      | .error fault => .error fault := by
  change (match (query volume heap).outcome with
    | .ok value => (⟨_, _⟩ : Finding β)
    | .error fault => ⟨_, _⟩).outcome = _
  cases (query volume heap).outcome <;> rfl

/-- Two questions in a row are answered when the first is and the second is
with the answer to the first. -/
theorem outcome_bind_eq_ok {query : Query α} {next : α → Query β} {volume : Volume}
    {heap : Heap} {result : β} :
    ((query >>= next) volume heap).outcome = .ok result ↔
      ∃ value, (query volume heap).outcome = .ok value ∧
        (next value volume heap).outcome = .ok result := by
  rw [outcome_bind]
  cases (query volume heap).outcome <;> simp

theorem ask_pure (value : α) : ask (pure value : Query α) = pure value := rfl

theorem ask_refuse (fault : Fault) :
    ask (refuse fault : Query α) = Act.refuse fault := rfl

theorem ask_node (id : NodeId) : ask (node id) = Act.node id := rfl

theorem ask_orRefuse (result : Except Fault α) :
    ask (orRefuse result) = Act.orRefuse result := by
  cases result <;> rfl

/-- Two questions, one after the other, leave what their composition leaves:
the second finds the live entries and the heap as the first did. -/
theorem ask_bind (query : Query α) (next : α → Query β) :
    ask (query >>= next) = ask query >>= fun value => ask (next value) := by
  funext state
  rw [Act.bind_run]
  simp only [ask]
  change (match (match (query state.volume.tidy state.heap).outcome with
      | .ok value => (⟨_, _⟩ : Finding β)
      | .error fault => ⟨_, _⟩).outcome with
    | .ok value => _
    | .error fault => _) = _
  cases houtcome : (query state.volume.tidy state.heap).outcome with
  | error fault =>
      simp [bind, houtcome]
  | ok value =>
      simp only [State.volume_tidy_visitAll, State.heap_visitAll,
        ← State.visitAll_append]
      simp [bind, houtcome]

theorem ask_ite (condition : Prop) [Decidable condition] (first second : Query α) :
    ask (if condition then first else second) =
      if condition then ask first else ask second := by
  split <;> rfl

theorem ask_seek (path : Path) : ask (seek path) = Act.seek path := by
  funext state
  rw [Act.seek_run]
  simp only [ask, seek, State.visitAll_singleton, State.visit, Volume.live?_tidy]
  cases state.volume.live? path <;> rfl

theorem ask_lookUp (path : Path) : ask (lookUp path) = Act.lookUp path := by
  funext state
  rw [Act.lookUp_run]
  simp only [ask, lookUp, Volume.live?_tidy]
  cases hlive : state.volume.live? path <;>
    simp [State.visit, hlive]

theorem ask_resolve (path : Path) : ask (resolve path) = Act.resolve path := by
  funext state
  rw [Act.resolve_run]
  have htrail := state.volume.resolve_trail state.heap path
  simp only [ask, resolve, Volume.resolve_tidy, Volume.stopFault_tidy]
  cases hend : (state.volume.resolve state.heap path).resolution with
  | found id =>
      simp only [hend] at htrail ⊢
      rw [State.visitAll_of_live state _ htrail]
  | stopped =>
      simp only [hend] at htrail ⊢
      rw [State.visitAll_of_live state _ htrail]
  | missing stop =>
      simp only [hend] at htrail ⊢
      obtain ⟨hstop, before, happend, hbefore⟩ := htrail
      rw [happend, State.visitAll_append, State.visitAll_of_live state before hbefore]
      have hstopSeen :
          (state.observe (before.map .lookedUp)).volume.live? stop = none := hstop
      simp [State.visit, hstopSeen, State.observe_append]

end Query

end FlatTree
