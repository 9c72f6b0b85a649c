import FlatTree.Proofs.Matches
import FlatTree.Proofs.Mirror

/-!
The flat store refines the file system that keeps a tree. A hierarchy mirrors a
volume over a heap (`Hierarchy.Mirrors`) when walking the tree over the segments
of a canonical path finds what looking up its text finds. The plan of every call
then follows the tree operation question by question (`Follows`), and the change
that it ends in keeps the hierarchy a mirror. Over a run the answers agree one by
one.
-/

namespace FlatTree

/-- The fault is reported as an error of the class and with the number of the
objection. -/
def Fault.Raises (fault : Fault) (objection : Objection) : Prop :=
  fault.failure.kind = objection.kind ∧ fault.failure.code? = objection.code?

/-- A question comes to the end that an operation comes to. -/
def Follows {α β : Type} (relate : α → β → Prop) (outcome : Except Fault α)
    (operation : Except Objection β) : Prop :=
  Matches Fault.Raises relate outcome operation

namespace Follows

variable {α β γ δ : Type} {relate : α → β → Prop} {after : γ → δ → Prop}
  {volume : Volume} {heap : Heap}

theorem bind {query : Query α} {next : α → Query γ} {operation : Except Objection β}
    {rest : β → Except Objection δ}
    (h : Follows relate (query volume heap).outcome operation)
    (hnext : ∀ found expected, relate found expected →
      Follows after ((next found) volume heap).outcome (rest expected)) :
    Follows after ((query >>= next) volume heap).outcome (operation >>= rest) := by
  rw [Query.outcome_bind_eq]
  exact Matches.bind h hnext

theorem node_bind {id : NodeId} {next : Node → Query γ} {operation : Except Objection δ}
    (h : Follows after ((next (heap.get id)) volume heap).outcome operation) :
    Follows after ((Query.node id >>= next) volume heap).outcome operation := by
  rw [Query.outcome_node_bind]
  exact h

theorem volume_bind {next : Volume → Query γ} {operation : Except Objection δ}
    (h : Follows after ((next volume) volume heap).outcome operation) :
    Follows after ((Query.volume >>= next) volume heap).outcome operation := by
  rw [Query.outcome_volume_bind]
  exact h

/-- A value or a fault given instead, and then a result made of the value. -/
theorem orRefuse {result : Except Fault α} {make : α → γ} {operation : Except Objection δ}
    (h : Follows (fun found expected => after (make found) expected) result operation) :
    Follows after
      ((do return make (← Query.orRefuse result) : Query γ) volume heap).outcome
      operation := by
  rw [Query.outcome_bind]
  unfold Query.orRefuse
  cases result with
  | error fault =>
      cases operation with
      | error objection => exact h
      | ok expected => exact h.elim
  | ok found =>
      cases operation with
      | error objection => exact h.elim
      | ok expected => exact h

end Follows

/-- A content that is refused to grow is too large, and any other is not. -/
theorem Node.growthFault?_cases (count : Nat) :
    (∃ fault, growthFault? count = some fault ∧ fault.failure.kind = .overflow ∧
        fault.failure.code? = none ∧ 2 ^ 63 - 33 ≤ count) ∨
      (growthFault? count = none ∧ count < 2 ^ 63 - 33) := by
  have hbound : wordBound = 2 ^ 63 := rfl
  unfold growthFault?
  split
  · rename_i hlarge
    exact Or.inl ⟨_, rfl, rfl, rfl, by omega⟩
  · split
    · rename_i hlarge
      exact Or.inl ⟨_, rfl, rfl, rfl, by omega⟩
    · rename_i hsmall
      exact Or.inr ⟨rfl, by omega⟩

/-- A file is cut unless it would grow too large. -/
theorem Node.truncate_of_file {node : Node} {size : Int} (hsize : ¬size < 0)
    (hdirectory : node.isDirectory = false) (hlink : node.isLink = false) :
    node.truncate size =
      match growthFault? (size.toNat - node.size) with
      | some fault => .error fault
      | none => .ok { node with content := node.content.resize size.toNat } := by
  unfold truncate
  exact (if_neg hsize).trans
    ((if_neg (by simp [hdirectory])).trans (if_neg (by simp [hlink])))

namespace Path

theorem proper_dropLast {path : List Segment} (h : ∀ segment ∈ path, Proper segment) :
    ∀ segment ∈ path.dropLast, Proper segment := by
  intro segment member
  exact h segment (List.dropLast_subset path member)

/-- The parent of a canonical path drops its last segment. The root is its own. -/
theorem parent_ofSegments_dropLast {path : List Segment}
    (h : ∀ segment ∈ path, Proper segment) :
    parent (ofSegments path) = ofSegments path.dropLast := by
  rcases List.eq_nil_or_concat path with rfl | ⟨front, last, rfl⟩
  · rfl
  · rw [List.concat_eq_append] at h ⊢
    rw [List.dropLast_concat]
    exact parent_ofSegments (fun segment member => h segment (by simp [member]))
      (h last (by simp))

end Path

namespace Hierarchy.Mirrors

open Query Plan

variable {hierarchy : Hierarchy} {volume : Volume} {heap : Heap}
  {path source target : List Segment} {sub : Tree}

section

variable (h : hierarchy.Mirrors volume heap)

include h

theorem follows_lookUp (hpath : ∀ segment ∈ path, Path.Proper segment) :
    Follows (fun id sub => id = sub.nodeId ∧ hierarchy.tree.walk path = some sub)
      ((lookUp (Path.ofSegments path)) volume heap).outcome (hierarchy.find path) := by
  unfold lookUp find
  cases hwalk : hierarchy.tree.walk path with
  | none =>
      rw [h.live?_of_none hpath hwalk]
      exact ⟨rfl, rfl⟩
  | some sub =>
      rw [h.live?_of_walk hwalk]
      exact ⟨rfl, rfl⟩

/-- Without links a path leads to its own node. -/
theorem outcome_resolve (path : Path) :
    ((resolve path) volume heap).outcome = ((lookUp path) volume heap).outcome := by
  unfold resolve lookUp Volume.resolve
  cases hlive : volume.live? path with
  | none => simp [Volume.search_of_absent heap _ hlive]
  | some id => simp [Volume.search_of_not_isLink _ hlive (h.linkless id)]

theorem follows_resolve (hpath : ∀ segment ∈ path, Path.Proper segment) :
    Follows (fun id sub => id = sub.nodeId ∧ hierarchy.tree.walk path = some sub)
      ((resolve (Path.ofSegments path)) volume heap).outcome (hierarchy.find path) := by
  rw [h.outcome_resolve]
  exact h.follows_lookUp hpath

theorem follows_requireFree (hpath : ∀ segment ∈ path, Path.Proper segment) :
    Follows (fun _ _ => hierarchy.tree.walk path = none)
      ((Plan.requireFree (Path.ofSegments path)) volume heap).outcome
      (hierarchy.requireFree path) := by
  unfold Plan.requireFree Hierarchy.requireFree
  apply Follows.volume_bind
  unfold Volume.occupied
  cases hwalk : hierarchy.tree.walk path with
  | none =>
      rw [h.live?_of_none hpath hwalk]
      rfl
  | some sub =>
      rw [h.live?_of_walk hwalk]
      exact ⟨rfl, rfl⟩

theorem follows_requireParent (hpath : ∀ segment ∈ path, Path.Proper segment) :
    Follows (fun _ _ => ∃ id entries,
        hierarchy.tree.walk path.dropLast = some (.directory id entries))
      ((Plan.requireParent (Path.ofSegments path)) volume heap).outcome
      (hierarchy.requireParent path) := by
  unfold Plan.requireParent Hierarchy.requireParent
  rw [Path.parent_ofSegments_dropLast hpath]
  refine Follows.bind (h.follows_resolve (Path.proper_dropLast hpath)) ?_
  rintro _ sub ⟨rfl, hwalk⟩
  apply Follows.node_bind
  rw [h.isDirectory_of_walk hwalk]
  cases sub with
  | file id => exact ⟨rfl, rfl⟩
  | directory id entries => exact ⟨id, entries, hwalk⟩

end

/-- The change that a command ends in makes a mirror of what the operation made. -/
def Lands (state : State) (change : Change) (after : Hierarchy) : Prop :=
  after.Mirrors (state.commit change).volume (state.commit change).heap

/-- The reply is the same, and the change lands. -/
def LandsWith (state : State) (planned : Reply × Change) (expected : Reply × Hierarchy) :
    Prop :=
  planned.1 = expected.1 ∧ Lands state planned.2 expected.2

section

variable {state : State} (h : hierarchy.Mirrors state.volume state.heap)

include h

theorem follows_view {id : NodeId} (hid : id = sub.nodeId)
    (hwalk : hierarchy.tree.walk path = some sub) :
    Follows (LandsWith state)
      ((do return (Reply.node (← Plan.view id), Change.keep) : Query _)
        state.volume state.heap).outcome
      (hierarchy.view sub) := by
  subst hid
  have hkind := h.isDirectory_of_walk hwalk
  rw [Query.outcome_bind]
  unfold Plan.view
  rw [Query.outcome_bind]
  simp only [Query.node, Node.viewFault?, hkind]
  cases sub with
  | file id => exact ⟨rfl, h⟩
  | directory id entries => exact ⟨rfl, rfl⟩

theorem follows_openToRead (hpath : ∀ segment ∈ path, Path.Proper segment) :
    Follows (LandsWith state)
      ((Plan.openToRead (Path.ofSegments path)) state.volume state.heap).outcome
      (hierarchy.openToRead path) := by
  unfold Plan.openToRead Hierarchy.openToRead
  refine Follows.bind (h.follows_resolve hpath) ?_
  rintro id sub ⟨hid, hwalk⟩
  exact h.follows_view hid hwalk

theorem follows_openToWrite (hsound : state.volume.Sound state.heap)
    (hpath : ∀ segment ∈ path, Path.Proper segment) :
    Follows (LandsWith state)
      ((Plan.openToWrite (Path.ofSegments path)) state.volume state.heap).outcome
      (hierarchy.openToWrite path) := by
  unfold Plan.openToWrite Hierarchy.openToWrite
  rw [Query.outcome_bind]
  simp only [Query.seek]
  cases hwalk : hierarchy.tree.walk path with
  | some sub =>
      rw [h.live?_of_walk hwalk]
      apply Follows.node_bind
      simp only [h.linkless]
      exact h.follows_view rfl hwalk
  | none =>
      rw [h.live?_of_none hpath hwalk]
      simp only [Plan.createFile]
      rw [Path.parent_ofSegments_dropLast hpath]
      refine Follows.bind (h.follows_lookUp (Path.proper_dropLast hpath)) ?_
      rintro _ sub ⟨rfl, hparent⟩
      apply Follows.node_bind
      rw [h.isDirectory_of_walk hparent]
      cases sub with
      | file id => exact ⟨rfl, rfl⟩
      | directory id entries =>
          refine ⟨?_, ?_⟩
          · rw [h.made]
          · exact h.add hsound hpath hparent hwalk rfl rfl rfl rfl rfl (.file _)

theorem follows_lstat (hpath : ∀ segment ∈ path, Path.Proper segment) :
    Follows (LandsWith state)
      ((Plan.lstat (Path.ofSegments path)) state.volume state.heap).outcome
      (hierarchy.lstat path) := by
  unfold Plan.lstat Hierarchy.lstat
  refine Follows.bind (h.follows_lookUp hpath) ?_
  rintro _ sub ⟨rfl, -⟩
  exact ⟨rfl, h⟩

theorem follows_mkdir (hsound : state.volume.Sound state.heap)
    (hpath : ∀ segment ∈ path, Path.Proper segment) :
    Follows (Lands state)
      ((Plan.mkdir (Path.ofSegments path)) state.volume state.heap).outcome
      (hierarchy.mkdir path) := by
  unfold Plan.mkdir Hierarchy.mkdir
  refine Follows.bind (h.follows_requireParent hpath) ?_
  rintro _ _ ⟨id, entries, hparent⟩
  refine Follows.bind (h.follows_requireFree hpath) ?_
  intro _ _ hfree
  refine h.add hsound hpath hparent hfree rfl rfl rfl rfl rfl (.directory _ [] ?_ ?_ ?_)
  · exact List.Pairwise.nil
  · simp
  · simp

theorem follows_link (hsource : ∀ segment ∈ source, Path.Proper segment)
    (htarget : ∀ segment ∈ target, Path.Proper segment) :
    Follows (Lands state)
      ((Plan.link (Path.ofSegments source) (Path.ofSegments target))
        state.volume state.heap).outcome
      (hierarchy.link source target) := by
  unfold Plan.link Hierarchy.link
  refine Follows.bind (h.follows_resolve hsource) ?_
  rintro _ sub ⟨rfl, hwalk⟩
  apply Follows.node_bind
  rw [h.isDirectory_of_walk hwalk]
  cases sub with
  | directory id entries => exact ⟨rfl, rfl⟩
  | file id =>
      refine Follows.bind (h.follows_requireFree htarget) ?_
      intro _ _ hfree
      refine Follows.bind (h.follows_requireParent htarget) ?_
      rintro _ _ ⟨directory, entries, hparent⟩
      exact h.share hwalk htarget hparent hfree

theorem follows_list (hsound : state.volume.Sound state.heap)
    (hpath : ∀ segment ∈ path, Path.Proper segment) (method : Method) :
    Follows (LandsWith state)
      ((Plan.list method (Path.ofSegments path)) state.volume state.heap).outcome
      (hierarchy.list method path) := by
  unfold Plan.list Hierarchy.list
  refine Follows.bind (h.follows_resolve hpath) ?_
  rintro _ sub ⟨rfl, hwalk⟩
  cases method with
  | list =>
      apply Follows.node_bind
      rw [h.isDirectory_of_walk hwalk]
      cases sub with
      | file id => exact ⟨rfl, rfl⟩
      | directory id entries =>
          refine ⟨?_, h⟩
          exact congrArg (fun ids => Reply.listing ⟨ids⟩) (h.listing_of_walk hsound hwalk)
  | stat | readlink => exact ⟨rfl, h⟩
  | setstat | rename | rmdir | remove | mkdir | link | symlink | get | put | openFile =>
      exact ⟨rfl, rfl⟩

/-- A file takes a new size for which there is room. -/
theorem follows_resize (hsound : state.volume.Sound state.heap)
    (hwalk : hierarchy.tree.walk path = some sub) (size : Int) :
    Follows (fun cut after => Lands state (.rewrite sub.nodeId cut) after)
      ((state.heap.get sub.nodeId).truncate size) (hierarchy.resize sub size) := by
  have hkind := h.isDirectory_of_walk hwalk
  unfold Hierarchy.resize
  by_cases hnegative : size < 0
  · unfold Node.truncate
    rw [if_pos hnegative, if_pos hnegative]
    exact ⟨rfl, rfl⟩
  rw [if_neg hnegative]
  cases sub with
  | directory id entries =>
      have hdirectory : (state.heap.get id).isDirectory = true := hkind
      have hcut : (state.heap.get id).truncate size =
          .error (.directoryTruncated (state.heap.get id).path) := by
        unfold Node.truncate
        rw [if_neg hnegative, if_pos hdirectory]
      simp only [Tree.nodeId]
      rw [hcut]
      exact ⟨rfl, rfl⟩
  | file id =>
      have hfile : (state.heap.get id).isDirectory = false := hkind
      have hlink := h.linkless id
      have hcontent := h.content path id (by rw [Tree.look, hwalk]; rfl)
      have hsize : (state.heap.get id).size = (hierarchy.content id).length :=
        congrArg List.length hcontent.symm
      simp only [Tree.nodeId]
      rcases Node.growthFault?_cases (size.toNat - (hierarchy.content id).length) with
        ⟨fault, hfault, hkind, hcode, hroom⟩ | ⟨hnone, hroom⟩
      · rw [← hsize] at hfault
        rw [Node.truncate_of_file hnegative hfile hlink, hfault, if_pos hroom]
        exact ⟨hkind, hcode⟩
      · rw [← hsize] at hnone
        have hcut := Node.truncate_of_file hnegative hfile hlink
        rw [hnone] at hcut
        rw [hcut, if_neg (Nat.not_le.mpr hroom)]
        exact h.rewrite hsound hwalk hcut

theorem follows_setstat (hsound : state.volume.Sound state.heap) {request : Request}
    (hpath : ∀ segment ∈ path, Path.Proper segment)
    (hrequest : request.path = Path.ofSegments path) :
    Follows (Lands state) ((Plan.setstat request) state.volume state.heap).outcome
      (hierarchy.setstat request.attributes path) := by
  unfold Plan.setstat Hierarchy.setstat
  rw [hrequest]
  refine Follows.bind (h.follows_resolve hpath) ?_
  rintro _ sub ⟨rfl, hwalk⟩
  split
  · rcases hsize : request.attributes.size with _ | (size | _)
    · exact ⟨rfl, rfl⟩
    · apply Follows.node_bind
      exact Follows.orRefuse (h.follows_resize hsound hwalk size)
    · exact ⟨rfl, rfl⟩
  · exact h

theorem follows_rename (hsound : state.volume.Sound state.heap)
    (hsource : ∀ segment ∈ source, Path.Proper segment)
    (htarget : ∀ segment ∈ target, Path.Proper segment) :
    Follows (Lands state)
      ((Plan.rename (Path.ofSegments source) (Path.ofSegments target))
        state.volume state.heap).outcome
      (hierarchy.rename source target) := by
  unfold Plan.rename Hierarchy.rename
  by_cases hroot : source = []
  · rw [if_pos ((Path.ofSegments_eq_root hsource).mpr hroot), if_pos hroot]
    exact ⟨rfl, rfl⟩
  rw [if_neg (Path.ofSegments_ne_root hsource hroot),
    if_neg hroot]
  refine Follows.bind (h.follows_lookUp hsource) ?_
  rintro _ sub ⟨rfl, hwalk⟩
  refine Follows.bind (h.follows_requireFree htarget) ?_
  intro _ _ hfree
  apply Follows.node_bind
  have hkind := h.isDirectory_of_walk hwalk
  have hinside : (Path.ofSegments target).Under (Path.ofSegments source) ↔
      source <+: target := by
    rw [Path.under_ofSegments hsource htarget hroot]
    constructor
    · rintro ⟨more, -, rfl⟩
      exact List.prefix_append source more
    · rintro ⟨more, rfl⟩
      refine ⟨more, ?_, rfl⟩
      rintro rfl
      rw [List.append_nil, hwalk] at hfree
      cases hfree
  simp only [hkind, hinside]
  split
  · exact ⟨rfl, rfl⟩
  · rename_i hapart
    refine Follows.bind (h.follows_requireParent htarget) ?_
    rintro _ _ ⟨directory, entries, hparent⟩
    apply Follows.volume_bind
    apply Follows.volume_bind
    have hapart' : ¬source <+: target := by
      rintro ⟨rest, rfl⟩
      cases sub with
      | directory id entries => exact hapart ⟨rfl, List.prefix_append source rest⟩
      | file id =>
          -- A file has no entries, so no directory is past it.
          rcases List.eq_nil_or_concat rest with rfl | ⟨front, name, rfl⟩
          · rw [List.append_nil, hwalk] at hfree
            cases hfree
          · rw [List.concat_eq_append, ← List.append_assoc, List.dropLast_concat,
              Tree.walk_append, hwalk] at hparent
            cases front with
            | nil =>
                rw [Option.bind_some, Tree.walk_nil] at hparent
                cases hparent
            | cons next front =>
                rw [Option.bind_some, Tree.walk_cons] at hparent
                cases hparent
    have hfind : (state.volume.moves sub.nodeId sub.isDirectory (Path.ofSegments source)
        (Path.ofSegments target)).tail.find?
          (fun move => state.volume.occupied move.target) = none := by
      rw [List.find?_eq_none]
      intro move later
      have member := List.mem_of_mem_tail later
      rw [← hkind] at member
      simp [Volume.occupied, h.free_of_mem_moves hwalk hroot htarget hfree member]
    rw [hfind]
    exact h.move hsound hwalk hroot htarget hparent hfree hapart' (by rw [hkind]) _ _

theorem follows_remove (hsound : state.volume.Sound state.heap)
    (hpath : ∀ segment ∈ path, Path.Proper segment) :
    Follows (Lands state)
      ((Plan.remove (Path.ofSegments path)) state.volume state.heap).outcome
      (hierarchy.remove path) := by
  unfold Plan.remove Hierarchy.remove
  by_cases hroot : path = []
  · rw [if_pos ((Path.ofSegments_eq_root hpath).mpr hroot), if_pos hroot]
    exact ⟨rfl, rfl⟩
  rw [if_neg (Path.ofSegments_ne_root hpath hroot),
    if_neg hroot, Path.parent_ofSegments_dropLast hpath]
  refine Follows.bind (h.follows_resolve (Path.proper_dropLast hpath)) ?_
  rintro _ sub ⟨rfl, hparent⟩
  apply Follows.node_bind
  apply Follows.volume_bind
  rw [h.isDirectory_of_walk hparent]
  obtain ⟨front, name, hsplit⟩ := (List.eq_nil_or_concat path).resolve_left hroot
  rw [List.concat_eq_append] at hsplit
  have hentry : hierarchy.tree.walk path = sub.entries.lookup name := by
    rw [hsplit, List.dropLast_concat] at hparent
    rw [hsplit, Tree.walk_concat, hparent]
    rfl
  have hbelow := h.below_eq_nil_iff hpath hroot
  cases sub with
  | file id =>
      have hfree : hierarchy.tree.walk path = none := hentry
      have hnone := h.live?_of_none hpath hfree
      rw [Volume.live?_of_ne_root (Volume.ne_root_of_free hnone)] at hnone
      rw [if_neg (by simp [Tree.isDirectory])]
      exact h.remove_absent hsound hnone
  | directory id entries =>
      cases hwalk : hierarchy.tree.walk path with
      | none =>
          rw [if_neg]
          · refine h.remove hpath hroot ?_
            intro sub hsub
            rw [hwalk] at hsub
            cases hsub
          · rintro ⟨-, hfull⟩
            apply hfull
            rw [hbelow]
            intro sub hsub
            rw [hwalk] at hsub
            cases hsub
      | some found =>
          rcases hentries : found.entries with _ | ⟨entry, rest⟩
          · have hleaf : ∀ sub, hierarchy.tree.walk path = some sub → sub.entries = [] := by
              intro sub hsub
              rw [hwalk] at hsub
              cases hsub
              exact hentries
            rw [if_neg fun hfull => hfull.2 (hbelow.mpr hleaf)]
            cases found with
            | file id => exact h.remove hpath hroot hleaf
            | directory id entries =>
                cases hentries
                exact h.remove hpath hroot hleaf
          · have hfull : state.volume.below (Path.ofSegments path) ≠ [] := by
              intro hnil
              rw [hbelow.mp hnil found hwalk] at hentries
              cases hentries
            rw [if_pos ⟨rfl, hfull⟩]
            cases found with
            | file id => cases hentries
            | directory id entries =>
                cases hentries
                exact ⟨rfl, rfl⟩

end

end Hierarchy.Mirrors

/-- A call whose paths are canonical, and that makes no symbolic link. Only a
rename and a second path make use of a target. -/
structure Call.Canonical (call : Call) : Prop where
  path : call.request.path.Canonical
  linkless : call.service = .command → call.request.method ≠ .symlink
  target : call.service = .command →
    call.request.method = .rename ∨ call.request.method = .link →
      call.request.target.Canonical

namespace Hierarchy

variable {hierarchy : Hierarchy} {state : State}

theorem Mirrors.follows_perform (h : hierarchy.Mirrors state.volume state.heap)
    (hsound : state.volume.Sound state.heap) {call : Call} (hcall : call.Canonical)
    (hservice : call.service = .command) :
    Follows (Lands state)
      ((Plan.perform call.request) state.volume state.heap).outcome
      (hierarchy.perform call.request) := by
  obtain ⟨path, hpath, htext⟩ := hcall.path
  have hsegments : call.request.path.segments = path := by
    rw [htext, Path.segments_ofSegments hpath]
  have htwo : call.request.method = .rename ∨ call.request.method = .link →
      ∃ target : List Segment, (∀ segment ∈ target, Path.Proper segment) ∧
        call.request.target = Path.ofSegments target ∧
        call.request.target.segments = target := by
    intro hmethod
    obtain ⟨target, htarget, hsame⟩ := hcall.target hservice hmethod
    refine ⟨target, htarget, hsame, ?_⟩
    rw [hsame, Path.segments_ofSegments htarget]
  unfold Plan.perform Hierarchy.perform
  rw [hsegments]
  cases hmethod : call.request.method with
  | setstat => exact h.follows_setstat hsound hpath htext
  | rename =>
      obtain ⟨target, htarget, hsame, hlist⟩ := htwo (Or.inl hmethod)
      rw [htext, hsame, Path.segments_ofSegments htarget]
      exact h.follows_rename hsound hpath htarget
  | rmdir | remove =>
      rw [htext]
      exact h.follows_remove hsound hpath
  | mkdir =>
      rw [htext]
      exact h.follows_mkdir hsound hpath
  | link =>
      obtain ⟨target, htarget, hsame, hlist⟩ := htwo (Or.inr hmethod)
      rw [htext, hsame, Path.segments_ofSegments htarget]
      exact h.follows_link hpath htarget
  | symlink => exact absurd hmethod (hcall.linkless hservice)
  | list | stat | readlink | get | put | openFile => exact ⟨rfl, rfl⟩

/-- The plan of every canonical call follows the operation on the tree. -/
theorem Mirrors.follows_plan (h : hierarchy.Mirrors state.volume state.heap)
    (hsound : state.volume.Sound state.heap) {call : Call} (hcall : call.Canonical) :
    Follows (LandsWith state) (call.plan state.volume state.heap).outcome
      (hierarchy.respond call) := by
  obtain ⟨path, hpath, htext⟩ := hcall.path
  have hsegments : call.request.path.segments = path := by
    rw [htext, Path.segments_ofSegments hpath]
  unfold Call.plan Hierarchy.respond
  rw [hsegments]
  cases hservice : call.service with
  | read =>
      rw [htext]
      exact h.follows_openToRead hpath
  | write | openFile =>
      rw [htext]
      exact h.follows_openToWrite hsound hpath
  | list =>
      rw [htext]
      exact h.follows_list hsound hpath call.request.method
  | lstat =>
      rw [htext]
      exact h.follows_lstat hpath
  | command =>
      refine Follows.bind (h.follows_perform hsound hcall hservice) ?_
      intro change after hlands
      exact ⟨rfl, hlands⟩

end Hierarchy

/-- An answer agrees with that of a hierarchy: the same reply, or an error of the
same class with the same number. -/
def Agrees (answer : Except Refusal Reply) (expected : Except Objection Reply) : Prop :=
  Matches (fun refusal objection => refusal.failure.kind = objection.kind ∧
    refusal.failure.code? = objection.code?) Eq answer expected

namespace State

variable {hierarchy : Hierarchy} {state : State}

/-- One call: the answers agree, and the hierarchy after it is a mirror again. -/
theorem serve_mirrors (h : hierarchy.Mirrors state.volume state.heap)
    (hsound : state.volume.Sound state.heap) {call : Call} (hcall : call.Canonical) :
    Agrees (call.answer state) (hierarchy.answer call) ∧
      (hierarchy.serve call).Mirrors (state.serve call).volume (state.serve call).heap := by
  have hfollows := h.follows_plan hsound hcall
  have hserve := serve_calm hsound.toCalm call
  rw [answer_calm hsound.toCalm]
  unfold Hierarchy.answer Hierarchy.serve
  cases houtcome : (call.plan state.volume state.heap).outcome with
  | error fault =>
      rw [houtcome] at hfollows
      simp only [houtcome] at hserve
      rw [hserve.1, hserve.2]
      cases hrespond : hierarchy.respond call with
      | error objection =>
          rw [hrespond] at hfollows
          exact ⟨hfollows, h⟩
      | ok expected =>
          rw [hrespond] at hfollows
          exact hfollows.elim
  | ok planned =>
      rw [houtcome] at hfollows
      simp only [houtcome] at hserve
      rw [hserve.1, hserve.2]
      cases hrespond : hierarchy.respond call with
      | error objection =>
          rw [hrespond] at hfollows
          exact hfollows.elim
      | ok expected =>
          rw [hrespond] at hfollows
          exact hfollows

theorem mirrors_start (settings : Settings) :
    Hierarchy.start.Mirrors (State.start settings).volume (State.start settings).heap := by
  have hlook : ∀ path, Hierarchy.start.tree.look path =
      if path = [] then some (⟨0⟩, true) else none := by
    intro path
    cases path with
    | nil => rfl
    | cons segment rest =>
        rw [Tree.look_cons]
        rfl
  have hget : ∀ id : NodeId, (State.start settings).heap.get id =
      if id = ⟨0⟩ then { path := Path.root, isDirectory := true } else default :=
    fun id => Heap.get_create {} { path := Path.root, isDirectory := true } id
  refine ⟨?_, ?_, rfl, ?_, ?_, ?_, ?_⟩
  · intro id
    rw [hget]
    split
    · rfl
    · rfl
  · exact .directory _ [] List.Pairwise.nil (by simp) (by simp)
  · intro path id hlive
    cases hlive
  · intro path hpath
    rw [hlook]
    by_cases hroot : path = []
    · rw [hroot]
      rfl
    · rw [if_neg hroot, Volume.live?_of_ne_root]
      · rfl
      · exact Path.ofSegments_ne_root hpath hroot
  · intro path id isDirectory hpath
    rw [hlook] at hpath
    split at hpath
    · cases hpath
      rfl
    · cases hpath
  · intro path id hpath
    rw [hlook] at hpath
    split at hpath
    · cases hpath
    · cases hpath

/-- A run of canonical calls: the answers agree one by one, and the hierarchy is
a mirror at the end. -/
theorem run_mirrors (h : hierarchy.Mirrors state.volume state.heap)
    (hsound : state.volume.Sound state.heap) {calls : List Call}
    (hcalls : ∀ call ∈ calls, call.Canonical) :
    List.Forall₂ Agrees (state.answers calls) (hierarchy.answers calls) ∧
      (hierarchy.run calls).Mirrors (state.run calls).volume (state.run calls).heap := by
  induction calls generalizing state hierarchy with
  | nil => exact ⟨.nil, h⟩
  | cons call rest ih =>
      obtain ⟨hagrees, hmirrors⟩ := serve_mirrors h hsound (hcalls call (by simp))
      have hnext : (state.serve call).volume.Sound (state.serve call).heap :=
        (sound_run hsound [call]).1
      obtain ⟨hanswers, hend⟩ := ih hmirrors hnext
        fun other member => hcalls other (by simp [member])
      exact ⟨.cons hagrees hanswers, hend⟩

/-- How a store shows a tree. Its keys are the paths of the tree other than the
root's, and walking over the segments of a canonical path finds the node that is
found by looking up the path. -/
structure Shows (state : State) (tree : Tree) : Prop where
  root : tree.isDirectory = true
  ordered : tree.Ordered
  paths : ∀ path, path ∈ state.volume.table.paths ↔
    ∃ segments : List Segment, segments ≠ [] ∧ (tree.walk segments).isSome = true ∧
      path = Path.ofSegments segments
  found : ∀ path : Path, path.Canonical →
    state.volume.live? path = (tree.walk path.segments).map Tree.nodeId
  kinds : ∀ segments sub, tree.walk segments = some sub →
    (state.node sub.nodeId).isDirectory = sub.isDirectory ∧
      (state.node sub.nodeId).isFile = !sub.isDirectory

theorem shows_of_mirrors (h : hierarchy.Mirrors state.volume state.heap)
    (hsound : state.volume.Sound state.heap) : state.Shows hierarchy.tree := by
  refine ⟨?_, h.ordered, ?_, ?_, ?_⟩
  · have hheld := h.live?_of_walk (Tree.walk_nil hierarchy.tree)
    rw [Path.ofSegments_nil, Volume.live?_root] at hheld
    have hkind := h.isDirectory_of_walk (Tree.walk_nil hierarchy.tree)
    rw [← hkind, ← Option.some.inj hheld]
    exact hsound.root_isDirectory
  · intro path
    constructor
    · intro member
      obtain ⟨⟨key, value⟩, hentry, rfl⟩ := List.mem_map.mp member
      have hfind := Table.find?_of_mem hentry
      rw [hsound.tidy.find?_eq] at hfind
      obtain ⟨id, hlive, -⟩ := Option.map_eq_some_iff.mp hfind
      obtain ⟨segments, hproper, hkey⟩ := h.keys key id hlive
      have hne : segments ≠ [] := by
        rintro rfl
        exact (hsound.rooted key id hlive).ne_root hkey
      rw [hkey] at hlive
      obtain ⟨isDirectory, hlook⟩ := h.look_of_live? hlive hproper hne
      obtain ⟨sub, hwalk, -⟩ := Option.map_eq_some_iff.mp hlook
      exact ⟨segments, hne, by rw [hwalk]; rfl, hkey⟩
    · rintro ⟨segments, hne, hsome, rfl⟩
      obtain ⟨sub, hwalk⟩ := Option.isSome_iff_exists.mp hsome
      have hlive := h.table_live?_of_walk hwalk hne
      have member := (Table.live_sublist state.volume.table).subset
        (List.mem_map_of_mem (f := Prod.fst) (Table.mem_live.mpr hlive))
      exact member
  · rintro path ⟨segments, hproper, rfl⟩
    rw [Path.segments_ofSegments hproper, h.held segments hproper, Tree.look,
      Option.map_map]
    rfl
  · intro segments sub hwalk
    have hkind := h.isDirectory_of_walk hwalk
    refine ⟨hkind, ?_⟩
    have hlink := h.linkless sub.nodeId
    unfold Node.isFile State.node
    rw [hkind, hlink]
    simp

/-- The flat store refines a tree. Over every run of canonical calls from an
empty store it shows, after each call, the tree that the tree operations make,
and each call is answered as the tree operation is. -/
theorem run_refines_hierarchy (settings : Settings) (calls : List Call)
    (hcalls : ∀ call ∈ calls, call.Canonical) :
    (∀ earlier later, calls = earlier ++ later →
      ((State.start settings).run earlier).Shows (Hierarchy.start.run earlier).tree) ∧
    List.Forall₂ Agrees ((State.start settings).answers calls)
      (Hierarchy.start.answers calls) := by
  have hmirrors := mirrors_start settings
  have hsound := sound_start settings
  constructor
  · rintro earlier later rfl
    have hrun := run_mirrors hmirrors hsound
      fun call member => hcalls call (List.mem_append_left later member)
    exact shows_of_mirrors hrun.2 (sound_run hsound earlier).1
  · exact (run_mirrors hmirrors hsound hcalls).1

end State

/-- A directory with a file that has a second path, renamed, listed, and not
removed because it has an entry. -/
def renamedDirectory : List Call :=
  [⟨.command, { method := .mkdir, path := ['/', 'a'] }⟩,
    ⟨.write, { method := .put, path := ['/', 'a', '/', 'f'] }⟩,
    ⟨.command, { method := .link, path := ['/', 'a', '/', 'f'], target := ['/', 'g'] }⟩,
    ⟨.command, { method := .rename, path := ['/', 'a'], target := ['/', 'b'] }⟩,
    ⟨.list, { method := .list, path := ['/', 'b'] }⟩,
    ⟨.command, { method := .rmdir, path := ['/', 'b'] }⟩]

/-- The tree operations find the moved file, and the store agrees. -/
theorem renamedDirectory_refines :
    (∀ call ∈ renamedDirectory, call.Canonical) ∧
      Hierarchy.start.answers renamedDirectory =
        [.ok .done, .ok (.node ⟨2⟩), .ok .done, .ok .done, .ok (.listing ⟨[⟨2⟩]⟩),
          .error .notEmpty] ∧
      List.Forall₂ Agrees ((State.start {}).answers renamedDirectory)
        (Hierarchy.start.answers renamedDirectory) := by
  have hproper : ∀ c : Char, c ≠ '/' → Path.Proper [c] := by
    intro c hc
    exact ⟨by simp, by simpa using Ne.symm hc⟩
  have hone : ∀ c : Char, c ≠ '/' → Path.Canonical ['/', c] := by
    intro c hc
    exact ⟨[[c]], by simpa using hproper c hc, rfl⟩
  have htwo : ∀ c d : Char, c ≠ '/' → d ≠ '/' → Path.Canonical ['/', c, '/', d] := by
    intro c d hc hd
    exact ⟨[[c], [d]], by simpa using ⟨hproper c hc, hproper d hd⟩, rfl⟩
  have hcalls : ∀ call ∈ renamedDirectory, call.Canonical := by
    intro call member
    simp only [renamedDirectory, List.mem_cons, List.not_mem_nil, or_false] at member
    rcases member with rfl | rfl | rfl | rfl | rfl | rfl
    · exact ⟨hone 'a' (by decide), by simp, by simp⟩
    · exact ⟨htwo 'a' 'f' (by decide) (by decide), by simp, by simp⟩
    · exact ⟨htwo 'a' 'f' (by decide) (by decide), by simp,
        fun _ _ => hone 'g' (by decide)⟩
    · exact ⟨hone 'a' (by decide), by simp, fun _ _ => hone 'b' (by decide)⟩
    · exact ⟨hone 'b' (by decide), by simp, by simp⟩
    · exact ⟨hone 'b' (by decide), by simp, by simp⟩
  refine ⟨hcalls, ?_, ?_⟩
  · rfl
  · exact (State.run_refines_hierarchy {} renamedDirectory hcalls).2

end FlatTree
