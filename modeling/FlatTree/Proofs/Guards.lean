import FlatTree.Proofs.Run
import FlatTree.Proofs.Relocation

/-!
What is known of a change when it is made. `Change.Permitted` has one case for
each way in which a plan ends in a change, with all the checks that were passed
on the way; every planned change is permitted (`Call.permitted_of_plan`). Beside
it stands what a call does to a volume without stale paths: nothing when it is
refused, and its permitted change when it is answered (`State.serve_calm`).
-/

namespace FlatTree

namespace Volume

/-- A path leads to a node when all links on the way are followed. -/
def Leads (volume : Volume) (heap : Heap) (path : Path) (id : NodeId) : Prop :=
  (volume.resolve heap path).resolution = .found id

instance (volume : Volume) (heap : Heap) (path : Path) (id : NodeId) :
    Decidable (volume.Leads heap path id) :=
  inferInstanceAs (Decidable (_ = _))

/-- The parent of a path leads to a directory. -/
def HasParent (volume : Volume) (heap : Heap) (path : Path) : Prop :=
  ∃ id, volume.Leads heap path.parent id ∧ (heap.get id).isDirectory = true

theorem search_found {volume : Volume} {heap : Heap} {hops : Nat} {path : Path}
    {id : NodeId} (h : (volume.search heap hops path).resolution = .found id) :
    (volume.live? path).isSome = true ∧ (∃ stop, volume.live? stop = some id) ∧
      (heap.get id).isLink = false := by
  revert h
  refine volume.search_induction heap (motive := fun _ path search =>
    search.resolution = .found id → (volume.live? path).isSome = true ∧
      (∃ stop, volume.live? stop = some id) ∧ (heap.get id).isLink = false)
    ?_ ?_ ?_ ?_ hops path
  · intro _ path _ hend
    cases hend
  · intro _ path held hlive hlink hend
    cases hend
    exact ⟨by rw [hlive]; rfl, ⟨path, hlive⟩, hlink⟩
  · intro path held _ _ hend
    cases hend
  · intro hops path held hlive _ hrest hend
    exact ⟨by rw [hlive]; rfl, (hrest hend).2⟩

/-- A path that leads to a node has a node itself. -/
theorem Leads.occupied {volume : Volume} {heap : Heap} {path : Path} {id : NodeId}
    (h : volume.Leads heap path id) : ∃ held, volume.live? path = some held :=
  Option.isSome_iff_exists.mp (search_found h).1

theorem Leads.held {volume : Volume} {heap : Heap} {path : Path} {id : NodeId}
    (h : volume.Leads heap path id) : ∃ stop, volume.live? stop = some id :=
  (search_found h).2.1

theorem Leads.isLink {volume : Volume} {heap : Heap} {path : Path} {id : NodeId}
    (h : volume.Leads heap path id) : (heap.get id).isLink = false :=
  (search_found h).2.2

section

variable {volume : Volume} {heap : Heap} {path : Path} {id : NodeId}

theorem leads_tidy : volume.tidy.Leads heap path id ↔ volume.Leads heap path id := by
  unfold Leads
  rw [resolve_tidy]

theorem hasParent_tidy : volume.tidy.HasParent heap path ↔ volume.HasParent heap path := by
  unfold HasParent
  simp only [leads_tidy]

/-- Where a path leads hangs on the live entries only. -/
theorem Leads.of_tidy {other : Volume} (h : volume.Leads heap path id)
    (htidy : other.tidy = volume.tidy) : other.Leads heap path id := by
  rw [← leads_tidy, htidy, leads_tidy]
  exact h

/-- A path whose own node is no link leads to that node. -/
theorem leads_of_live? (hlive : volume.live? path = some id)
    (hlink : (heap.get id).isLink = false) : volume.Leads heap path id := by
  unfold Leads resolve
  rw [search_of_not_isLink _ hlive hlink]

theorem Leads.unique {other : NodeId} (h : volume.Leads heap path id)
    (h' : volume.Leads heap path other) : id = other := by
  unfold Leads at h h'
  rw [h] at h'
  exact Resolution.found.inj h'

end

/-- No path of the volume is stale, and no failure is injected. -/
structure Calm (volume : Volume) : Prop where
  tidy : volume.table.Tidy
  injected : volume.injected = none

end Volume

/-- The changes that a plan may end in, with what its checks have found. -/
inductive Change.Permitted (volume : Volume) (heap : Heap) : Change → Prop
  | keep : Permitted volume heap .keep
  | rewrite {path id size node} (leads : volume.Leads heap path id)
      (cut : (heap.get id).truncate size = .ok node) :
      Permitted volume heap (.rewrite id node)
  | file {path parent} (free : volume.live? path = none)
      (held : volume.live? path.parent = some parent)
      (directory : (heap.get parent).isDirectory = true) :
      Permitted volume heap (.add { path } (.fileCreated path))
  | directory {path} (parent : volume.HasParent heap path)
      (free : volume.live? path = none) :
      Permitted volume heap
        (.add { path, isDirectory := true } (.directoryCreated path))
  | link {path target id} (leads : volume.Leads heap path id)
      (free : volume.live? target = none) (parent : volume.HasParent heap target) :
      Permitted volume heap
        (.add { path := target, target := path } (.symlinked target path))
  | share {path target id} (leads : volume.Leads heap path id)
      (plain : (heap.get id).isDirectory = false)
      (free : volume.live? target = none) (parent : volume.HasParent heap target) :
      Permitted volume heap (.share target path id)
  | move {source target id} (apart : source ≠ Path.root)
      (held : volume.live? source = some id)
      (outside : ¬((heap.get id).isDirectory = true ∧ target.Under source))
      (parent : volume.HasParent heap target)
      (free : ∀ move ∈ volume.moves id (heap.get id).isDirectory source target,
        volume.live? move.target = none) :
      Permitted volume heap
        (.move source target (volume.moves id (heap.get id).isDirectory source target))
  | remove {path id} (apart : path ≠ Path.root)
      (leads : volume.Leads heap path.parent id)
      (empty : (heap.get id).isDirectory = true → volume.below path = []) :
      Permitted volume heap (.remove path)

namespace Plan

open Query

variable {volume : Volume} {heap : Heap} {path target : Path} {change : Change}
  {reply : Reply}

theorem outcome_refuse {α : Type} (fault : Fault) :
    ((refuse fault : Query α) volume heap).outcome = .error fault := rfl

theorem outcome_node_eq_ok {id : NodeId} {node : Node} :
    ((Query.node id) volume heap).outcome = .ok node ↔ heap.get id = node := by
  simp [Query.node]

theorem outcome_volume_eq_ok {found : Volume} :
    (Query.volume volume heap).outcome = .ok found ↔ volume = found := by
  simp [Query.volume]

theorem outcome_seek_eq_ok {found : Option NodeId} :
    ((seek path) volume heap).outcome = .ok found ↔ volume.live? path = found := by
  simp [seek]

theorem outcome_lookUp_eq_ok {id : NodeId} :
    ((lookUp path) volume heap).outcome = .ok id ↔ volume.live? path = some id := by
  unfold lookUp
  cases volume.live? path <;> simp

theorem outcome_resolve_eq_ok {id : NodeId} :
    ((resolve path) volume heap).outcome = .ok id ↔ volume.Leads heap path id := by
  unfold resolve Volume.Leads
  cases hend : (volume.resolve heap path).resolution <;> simp [hend]

theorem outcome_requireParent_eq_ok {u : Unit} :
    ((requireParent path) volume heap).outcome = .ok u ↔ volume.HasParent heap path := by
  unfold requireParent Volume.HasParent
  simp only [outcome_bind_eq_ok, outcome_resolve_eq_ok, outcome_node_eq_ok]
  constructor
  · rintro ⟨id, hleads, node, rfl, hif⟩
    refine ⟨id, hleads, ?_⟩
    split at hif
    · assumption
    · cases hif
  · rintro ⟨id, hleads, hdirectory⟩
    exact ⟨id, hleads, _, rfl, by rw [if_pos hdirectory]; rfl⟩

theorem outcome_requireFree_eq_ok {u : Unit} :
    ((requireFree path) volume heap).outcome = .ok u ↔ volume.live? path = none := by
  unfold requireFree Volume.occupied
  simp only [outcome_bind_eq_ok, outcome_volume_eq_ok]
  cases hlive : volume.live? path with
  | none => simp [hlive, outcome_pure]
  | some id => simp [hlive, outcome_refuse]

theorem permitted_setstat {request : Request}
    (h : ((setstat request) volume heap).outcome = .ok change) :
    change.Permitted volume heap := by
  simp only [setstat, outcome_bind_eq_ok, outcome_resolve_eq_ok] at h
  obtain ⟨id, hleads, hrest⟩ := h
  split at hrest
  · rcases hsize : request.attributes.size with _ | (size | _)
    · simp only [hsize] at hrest
      cases hrest
    · simp only [hsize, outcome_bind_eq_ok, outcome_node_eq_ok] at hrest
      obtain ⟨node, rfl, cut, hcut, hpure⟩ := hrest
      cases hpure
      exact .rewrite hleads hcut
    · simp only [hsize] at hrest
      cases hrest
  · cases hrest
    exact .keep

theorem permitted_rename {source : Path}
    (h : ((rename source target) volume heap).outcome = .ok change) :
    change.Permitted volume heap := by
  unfold rename at h
  split at h
  · cases h
  · rename_i hapart
    simp only [outcome_bind_eq_ok, outcome_lookUp_eq_ok, outcome_requireFree_eq_ok,
      outcome_node_eq_ok] at h
    obtain ⟨id, hheld, _, hfree, node, rfl, hrest⟩ := h
    split at hrest
    · cases hrest
    · rename_i houtside
      simp only [outcome_bind_eq_ok, outcome_requireParent_eq_ok,
        outcome_volume_eq_ok] at hrest
      obtain ⟨_, hparent, _, rfl, _, rfl, hmoves⟩ := hrest
      cases hnone : (volume.moves id (heap.get id).isDirectory source target).tail.find?
          fun move => volume.occupied move.target with
      | some move =>
        simp only [hnone] at hmoves
        cases hmoves
      | none =>
        simp only [hnone] at hmoves
        cases hmoves
        refine .move hapart hheld houtside hparent ?_
        intro move member
        -- The first move was checked on its own, before the others.
        rcases List.mem_cons.mp member with rfl | later
        · exact hfree
        · have hcheck := List.find?_eq_none.mp hnone move later
          simpa [Volume.occupied] using hcheck

theorem permitted_remove (h : ((remove path) volume heap).outcome = .ok change) :
    change.Permitted volume heap := by
  unfold remove at h
  split at h
  · cases h
  · rename_i hapart
    simp only [outcome_bind_eq_ok, outcome_resolve_eq_ok, outcome_node_eq_ok,
      outcome_volume_eq_ok] at h
    obtain ⟨id, hleads, node, rfl, _, rfl, hrest⟩ := h
    split at hrest
    · cases hrest
    · rename_i hempty
      cases hrest
      refine .remove hapart hleads fun hdirectory => ?_
      simpa [hdirectory] using hempty

theorem permitted_mkdir (h : ((mkdir path) volume heap).outcome = .ok change) :
    change.Permitted volume heap := by
  simp only [mkdir, outcome_bind_eq_ok, outcome_requireParent_eq_ok,
    outcome_requireFree_eq_ok] at h
  obtain ⟨_, hparent, _, hfree, hpure⟩ := h
  cases hpure
  exact .directory hparent hfree

theorem permitted_link (h : ((link path target) volume heap).outcome = .ok change) :
    change.Permitted volume heap := by
  simp only [link, outcome_bind_eq_ok, outcome_resolve_eq_ok, outcome_node_eq_ok] at h
  obtain ⟨id, hleads, node, rfl, hrest⟩ := h
  split at hrest
  · cases hrest
  · rename_i hplain
    simp only [outcome_bind_eq_ok, outcome_requireParent_eq_ok,
      outcome_requireFree_eq_ok] at hrest
    obtain ⟨_, hfree, _, hparent, hpure⟩ := hrest
    cases hpure
    exact .share hleads (by simpa using hplain) hfree hparent

theorem permitted_symlink (h : ((symlink path target) volume heap).outcome = .ok change) :
    change.Permitted volume heap := by
  simp only [symlink, outcome_bind_eq_ok, outcome_resolve_eq_ok,
    outcome_requireParent_eq_ok, outcome_requireFree_eq_ok] at h
  obtain ⟨id, hleads, _, hfree, _, hparent, hpure⟩ := h
  cases hpure
  exact .link hleads hfree hparent

theorem permitted_perform {request : Request}
    (h : ((perform request) volume heap).outcome = .ok change) :
    change.Permitted volume heap := by
  unfold perform at h
  cases hmethod : request.method <;> simp only [hmethod] at h
  case setstat => exact permitted_setstat h
  case rename => exact permitted_rename h
  case rmdir => exact permitted_remove h
  case remove => exact permitted_remove h
  case mkdir => exact permitted_mkdir h
  case link => exact permitted_link h
  case symlink => exact permitted_symlink h
  all_goals cases h

theorem permitted_createFile (hfree : volume.live? path = none)
    (h : ((createFile path) volume heap).outcome = .ok (reply, change)) :
    change.Permitted volume heap := by
  simp only [createFile, outcome_bind_eq_ok, outcome_lookUp_eq_ok,
    outcome_node_eq_ok] at h
  obtain ⟨parent, hheld, node, rfl, hrest⟩ := h
  split at hrest
  · rename_i hdirectory
    simp only [outcome_bind_eq_ok] at hrest
    obtain ⟨id, -, hpure⟩ := hrest
    cases hpure
    exact .file hfree hheld hdirectory
  · cases hrest

theorem permitted_openToWrite
    (h : ((openToWrite path) volume heap).outcome = .ok (reply, change)) :
    change.Permitted volume heap := by
  simp only [openToWrite, outcome_bind_eq_ok, outcome_seek_eq_ok] at h
  obtain ⟨found, hfound, hrest⟩ := h
  cases found with
  | none => exact permitted_createFile hfound hrest
  | some id =>
      simp only [outcome_bind_eq_ok, outcome_node_eq_ok] at hrest
      obtain ⟨node, -, hrest⟩ := hrest
      split at hrest <;>
        · simp only [outcome_bind_eq_ok] at hrest
          obtain ⟨_, -, _, -, hpure⟩ := hrest
          cases hpure
          exact .keep

theorem permitted_list {method : Method}
    (h : ((list method path) volume heap).outcome = .ok (reply, change)) :
    change.Permitted volume heap := by
  simp only [list, outcome_bind_eq_ok] at h
  obtain ⟨id, -, hrest⟩ := h
  cases method <;> simp only at hrest
  case list =>
    simp only [outcome_bind_eq_ok] at hrest
    obtain ⟨node, -, hrest⟩ := hrest
    split at hrest
    · simp only [outcome_bind_eq_ok] at hrest
      obtain ⟨_, -, hpure⟩ := hrest
      cases hpure
      exact .keep
    · cases hrest
  case stat | readlink =>
    cases hrest
    exact .keep
  all_goals cases hrest

end Plan

/-- A call that is not refused ends in a change whose checks have passed. -/
theorem Call.permitted_of_plan {call : Call} {volume : Volume} {heap : Heap}
    {reply : Reply} {change : Change}
    (h : (call.plan volume heap).outcome = .ok (reply, change)) :
    change.Permitted volume heap := by
  unfold Call.plan at h
  cases hservice : call.service <;> simp only [hservice] at h
  case read =>
    simp only [Plan.openToRead, Query.outcome_bind_eq_ok] at h
    obtain ⟨_, -, _, -, hpure⟩ := h
    cases hpure
    exact .keep
  case write | openFile => exact Plan.permitted_openToWrite h
  case list => exact Plan.permitted_list h
  case lstat =>
    simp only [Plan.lstat, Query.outcome_bind_eq_ok] at h
    obtain ⟨_, -, hpure⟩ := h
    cases hpure
    exact .keep
  case command =>
    simp only [Query.outcome_bind_eq_ok] at h
    obtain ⟨planned, hplanned, hpure⟩ := h
    cases hpure
    exact Plan.permitted_perform hplanned

namespace State

variable {state : State}

theorem tidy_of_calm {volume : Volume} (h : volume.Calm) : volume.tidy = volume := by
  unfold Volume.tidy
  rw [h.tidy.tidy_eq]

/-- Look-ups leave a calm volume as it is. -/
theorem volume_visitAll_of_calm (state : State) (h : state.volume.Calm)
    (trail : List Path) : (state.visitAll trail).volume = state.volume := by
  induction trail generalizing state with
  | nil => rfl
  | cons path rest ih =>
      have hvisit : (state.visit path).volume = state.volume := by
        rw [volume_visit, table_visit]
        split
        · rfl
        · rename_i habsent
          have hnone : state.volume.table.live? path = none := by
            unfold Volume.live? at habsent
            split at habsent
            · simp at habsent
            · simpa using habsent
          rw [h.tidy.erase_eq hnone]
      have hrest := ih (state.visit path) (by rw [hvisit]; exact h)
      exact hrest.trans hvisit

theorem calm_commit (h : state.volume.Calm) (change : Change) :
    (state.commit change).volume.Calm := by
  cases change with
  | keep => exact h
  | rewrite id node => exact h
  | add node record => exact ⟨h.tidy.insert node.path _, h.injected⟩
  | share target path id => exact ⟨h.tidy.insert target id, h.injected⟩
  | move source target moves => exact ⟨h.tidy.relocate moves, h.injected⟩
  | remove path =>
      simp only [commit]
      split
      · exact ⟨h.tidy.erase path, h.injected⟩
      · exact ⟨h.tidy.erase path, h.injected⟩

/-- What a change makes of volume and heap hangs on volume and heap only. -/
theorem commit_congr {other : State} (hvolume : state.volume = other.volume)
    (hheap : state.heap = other.heap) (change : Change) :
    (state.commit change).volume = (other.commit change).volume ∧
      (state.commit change).heap = (other.commit change).heap := by
  cases change with
  | keep => exact ⟨hvolume, hheap⟩
  | rewrite id node => exact ⟨hvolume, by simp only [commit, hheap]⟩
  | add node record =>
      simp only [commit, observe, changeTable, hvolume, hheap, and_self]
  | share target path id =>
      simp only [commit, observe, changeTable, hvolume, hheap, and_self]
  | move source target moves =>
      simp only [commit, observe, relocate, hvolume, hheap, and_self]
  | remove path =>
      simp only [commit, hvolume]
      split <;> simp only [observe, purge, changeTable, hvolume, hheap, and_self]

/-- On a calm volume a call changes nothing when it is refused, and makes its
permitted change when it is answered. -/
theorem serve_calm (h : state.volume.Calm) (call : Call) :
    match (call.plan state.volume state.heap).outcome with
    | .error _ => (state.serve call).volume = state.volume ∧
        (state.serve call).heap = state.heap
    | .ok (_, change) => (state.serve call).volume = (state.commit change).volume ∧
        (state.serve call).heap = (state.commit change).heap := by
  have hserve := serve_eq call h.injected
  rw [tidy_of_calm h] at hserve
  let entered : State := { state with scopes := call.request :: state.scopes }
  let trail := (call.plan state.volume state.heap).trail
  have hvolume : (entered.visitAll trail).volume = state.volume :=
    volume_visitAll_of_calm entered h trail
  have hheap : (entered.visitAll trail).heap = state.heap := heap_visitAll entered trail
  cases houtcome : (call.plan state.volume state.heap).outcome with
  | error fault =>
      simp only [houtcome] at hserve ⊢
      rw [hserve]
      exact ⟨hvolume, hheap⟩
  | ok planned =>
      simp only [houtcome] at hserve ⊢
      rw [hserve]
      exact commit_congr hvolume hheap planned.2

theorem answer_calm (h : state.volume.Calm) (call : Call) :
    call.answer state =
      match (call.plan state.volume state.heap).outcome with
      | .error fault => .error (.fault fault)
      | .ok (reply, _) => .ok reply := by
  have hanswer := answer_eq call h.injected
  rwa [tidy_of_calm h] at hanswer

theorem answer_ok_iff (h : state.volume.Calm) {call : Call} {reply : Reply} :
    call.answer state = .ok reply ↔
      ∃ change, (call.plan state.volume state.heap).outcome = .ok (reply, change) := by
  rw [answer_calm h]
  cases (call.plan state.volume state.heap).outcome with
  | error fault => simp
  | ok planned => simp [Prod.ext_iff, eq_comm]

/-- An answered call has made the change that it planned. -/
theorem serve_of_answer_ok (h : state.volume.Calm) {call : Call} {reply : Reply}
    (hanswer : call.answer state = .ok reply) :
    ∃ change, (call.plan state.volume state.heap).outcome = .ok (reply, change) ∧
      (state.serve call).volume = (state.commit change).volume ∧
      (state.serve call).heap = (state.commit change).heap := by
  rw [answer_calm h] at hanswer
  have hserve := serve_calm h call
  cases houtcome : (call.plan state.volume state.heap).outcome with
  | error fault =>
      rw [houtcome] at hanswer
      cases hanswer
  | ok planned =>
      simp only [houtcome] at hanswer hserve
      obtain ⟨found, change⟩ := planned
      cases hanswer
      exact ⟨change, rfl, hserve⟩

/-- What holds of a calm volume and its heap and is kept by every permitted
change holds after every run. -/
theorem run_calm_induction {motive : Volume → Heap → Prop}
    (calm : ∀ volume heap, motive volume heap → volume.Calm)
    (step : ∀ (state : State) (change : Change), motive state.volume state.heap →
      change.Permitted state.volume state.heap →
        motive (state.commit change).volume (state.commit change).heap)
    (start : motive state.volume state.heap) (calls : List Call) :
    motive (state.run calls).volume (state.run calls).heap := by
  refine run_induction (motive := fun state => motive state.volume state.heap)
    state calls start ?_
  intro state call hstate
  have hserve := serve_calm (calm _ _ hstate) call
  cases houtcome : (call.plan state.volume state.heap).outcome with
  | error fault =>
      simp only [houtcome] at hserve
      rw [hserve.1, hserve.2]
      exact hstate
  | ok planned =>
      simp only [houtcome] at hserve
      rw [hserve.1, hserve.2]
      exact step state planned.2 hstate (Call.permitted_of_plan houtcome)

theorem calm_start (settings : Settings) : (State.start settings).volume.Calm :=
  ⟨Table.tidy_empty, rfl⟩

end State

end FlatTree
