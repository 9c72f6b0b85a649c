import FlatTree.Proofs.Guards

/-!
What every store keeps to, whatever texts its calls name as paths. A volume is
sound over a heap (`Volume.Sound`) when its keys are paths from the root, no node
is of two kinds, and every entry that is no regular file stands under the path
that its node has. Every permitted change keeps a volume sound, and the kind of
a node never changes once it is made.
-/

namespace FlatTree

namespace Heap

theorem get_create (heap : Heap) (node : Node) (id : NodeId) :
    (heap.create node).2.get id =
      if id = ⟨heap.size⟩ then { node with createdAt := heap.size } else heap.get id := by
  split
  · rename_i hnew
    rw [hnew]
    exact get_create_self heap node
  · rename_i hold
    by_cases hlt : id.index < heap.size
    · exact get_create_of_lt heap node hlt
    · have hgt : heap.size < id.index := by
        have hne : id.index ≠ heap.size := by
          intro same
          exact hold (by cases id; simp_all)
        omega
      have hout : ∀ nodes : List Node, nodes.length ≤ id.index →
          nodes[id.index]?.getD default = default := by
        intro nodes hlength
        rw [List.getElem?_eq_none hlength]
        rfl
      simp only [get, create]
      rw [hout _ (by simp only [List.length_append, List.length_singleton]; exact hgt),
        hout _ (Nat.le_of_lt hgt)]

end Heap

namespace Node

/-- Cutting a node changes its content only. -/
theorem truncate_eq_ok {node cut : Node} {size : Int} (h : node.truncate size = .ok cut) :
    node.isFile = true ∧ cut = { node with content := node.content.resize size.toNat } := by
  unfold truncate at h
  split at h
  · cases h
  · split at h
    · cases h
    · rename_i hdirectory
      split at h
      · cases h
      · rename_i hlink
        split at h
        · cases h
        · cases h
          exact ⟨by simp [isFile, hdirectory, hlink], rfl⟩

end Node

namespace Volume

/-- What a volume and a heap keep to. -/
structure Sound (volume : Volume) (heap : Heap) : Prop extends volume.Calm where
  rooted : ∀ path id, volume.table.live? path = some id → path.Rooted
  made : ∀ path id, volume.live? path = some id → id.index < heap.size
  root_isDirectory : (heap.get volume.root).isDirectory = true
  root_path : (heap.get volume.root).path = Path.root
  oneKind : ∀ id, (heap.get id).isDirectory = true → (heap.get id).isLink = false
  ownPath : ∀ path id, volume.table.live? path = some id →
    (heap.get id).isFile = false → (heap.get id).path = path

variable {volume : Volume} {heap : Heap} {path : Path} {id : NodeId}

theorem live?_of_ne_root (h : path ≠ Path.root) :
    volume.live? path = volume.table.live? path := by
  unfold live?
  rw [if_neg h]

theorem live?_root : volume.live? Path.root = some volume.root := by
  unfold live?
  rw [if_pos rfl]

/-- A free path is not the root's. -/
theorem ne_root_of_free (h : volume.live? path = none) : path ≠ Path.root := by
  rintro rfl
  rw [live?_root] at h
  cases h

theorem table_free (h : volume.live? path = none) : volume.table.live? path = none := by
  rwa [live?_of_ne_root (ne_root_of_free h)] at h

namespace Sound

variable (h : volume.Sound heap)

include h

theorem live?_rooted (hlive : volume.live? path = some id) :
    path = Path.root ∨ path.Rooted := by
  by_cases hroot : path = Path.root
  · exact Or.inl hroot
  · rw [live?_of_ne_root hroot] at hlive
    exact Or.inr (h.rooted path id hlive)

/-- A free path whose parent has a node is a path from the root. -/
theorem rooted_of_free (hfree : volume.live? path = none)
    (hparent : volume.live? path.parent = some id) : path.Rooted :=
  Path.rooted_of_parent (ne_root_of_free hfree) (h.live?_rooted hparent)

theorem rooted_of_hasParent (hfree : volume.live? path = none)
    (hparent : volume.HasParent heap path) : path.Rooted := by
  obtain ⟨directory, hleads, -⟩ := hparent
  obtain ⟨held, hheld⟩ := hleads.occupied
  exact h.rooted_of_free hfree hheld

/-- No entry of the table is the root. -/
theorem ne_root (hlive : volume.table.live? path = some id) : id ≠ volume.root := by
  rintro rfl
  have hfile : (heap.get volume.root).isFile = false := by
    simp [Node.isFile, h.root_isDirectory]
  have hpath := h.ownPath path _ hlive hfile
  rw [h.root_path] at hpath
  exact (h.rooted path _ hlive).ne_root hpath.symm

theorem made_of_live? (hlive : volume.table.live? path = some id) :
    id.index < heap.size := by
  apply h.made path
  rw [live?_of_ne_root (h.rooted path id hlive).ne_root]
  exact hlive

theorem root_made : volume.root.index < heap.size :=
  h.made Path.root _ live?_root

end Sound

end Volume

/-- No node is lost from a heap, and none changes its kind or its target. -/
structure Heap.Keeps (heap after : Heap) : Prop where
  size : heap.size ≤ after.size
  isDirectory : ∀ id, id.index < heap.size →
    (after.get id).isDirectory = (heap.get id).isDirectory
  target : ∀ id, id.index < heap.size → (after.get id).target = (heap.get id).target

theorem Heap.Keeps.refl (heap : Heap) : heap.Keeps heap :=
  ⟨Nat.le_refl _, fun _ _ => rfl, fun _ _ => rfl⟩

theorem Heap.Keeps.trans {heap between after : Heap} (h : heap.Keeps between)
    (h' : between.Keeps after) : heap.Keeps after := by
  have hmade : ∀ id : NodeId, id.index < heap.size → id.index < between.size :=
    fun _ hid => Nat.lt_of_lt_of_le hid h.size
  refine ⟨Nat.le_trans h.size h'.size, ?_, ?_⟩
  · intro id hid
    rw [h'.isDirectory id (hmade id hid), h.isDirectory id hid]
  · intro id hid
    rw [h'.target id (hmade id hid), h.target id hid]

namespace State

variable {state : State} {node : Node} {record : Record} {target path : Path}
  {id : NodeId} {moves : List Move}

theorem get_add (id : NodeId) : (state.commit (.add node record)).heap.get id =
    if id = ⟨state.heap.size⟩ then
      { node with delay := state.volume.settings.writeDelay, createdAt := state.heap.size }
    else state.heap.get id :=
  Heap.get_create _ _ id

theorem get_add_of_made (hmade : id.index < state.heap.size) :
    (state.commit (.add node record)).heap.get id = state.heap.get id := by
  rw [get_add, if_neg]
  rintro rfl
  exact Nat.lt_irrefl _ hmade

theorem size_add : (state.commit (.add node record)).heap.size = state.heap.size + 1 :=
  Heap.size_create _ _

theorem live?_add (other : Path) :
    (state.commit (.add node record)).volume.table.live? other =
      if other = node.path then some ⟨state.heap.size⟩
      else state.volume.table.live? other :=
  Table.live?_insert _ _ _ _

theorem keeps_add : state.heap.Keeps (state.commit (.add node record)).heap := by
  refine ⟨?_, ?_, ?_⟩
  · rw [size_add]
    omega
  · intro id hid
    rw [get_add_of_made hid]
  · intro id hid
    rw [get_add_of_made hid]

/-- A new node of one kind under a path from the root. -/
theorem sound_add (h : state.volume.Sound state.heap) (hrooted : node.path.Rooted)
    (hkind : node.isDirectory = true → node.isLink = false) :
    (state.commit (.add node record)).volume.Sound
      (state.commit (.add node record)).heap := by
  have hroot : (state.commit (.add node record)).heap.get state.volume.root =
      state.heap.get state.volume.root := get_add_of_made h.root_made
  refine ⟨calm_commit h.toCalm _, ?_, ?_, ?_, ?_, ?_, ?_⟩
  · intro path id hlive
    rw [live?_add] at hlive
    split at hlive
    · rename_i hpath
      rw [hpath]
      exact hrooted
    · exact h.rooted path id hlive
  · intro path id hlive
    rw [size_add]
    by_cases hpath : path = Path.root
    · rw [hpath, Volume.live?_root] at hlive
      have hid : id = state.volume.root := (Option.some.inj hlive).symm
      have := h.root_made
      rw [hid]
      omega
    · rw [Volume.live?_of_ne_root hpath, live?_add] at hlive
      split at hlive
      · cases hlive
        exact Nat.lt_succ_self _
      · have := h.made_of_live? hlive
        omega
  · exact (congrArg Node.isDirectory hroot).trans h.root_isDirectory
  · exact (congrArg Node.path hroot).trans h.root_path
  · intro id hdirectory
    rw [get_add] at hdirectory ⊢
    split
    · rename_i hnew
      rw [if_pos hnew] at hdirectory
      exact hkind hdirectory
    · rename_i hne
      rw [if_neg hne] at hdirectory
      exact h.oneKind id hdirectory
  · intro path id hlive hfile
    rw [live?_add] at hlive
    split at hlive
    · rename_i hpath
      cases hlive
      rw [get_add, if_pos rfl]
      exact hpath.symm
    · rw [get_add_of_made (h.made_of_live? hlive)] at hfile ⊢
      exact h.ownPath path id hlive hfile

theorem live?_share (other : Path) :
    (state.commit (.share target path id)).volume.table.live? other =
      if other = target then some id else state.volume.table.live? other :=
  Table.live?_insert _ _ _ _

/-- A second path for a regular file. -/
theorem sound_share (h : state.volume.Sound state.heap) (hrooted : target.Rooted)
    (hmade : id.index < state.heap.size) (hfile : (state.heap.get id).isFile = true) :
    (state.commit (.share target path id)).volume.Sound
      (state.commit (.share target path id)).heap := by
  refine ⟨calm_commit h.toCalm _, ?_, ?_, h.root_isDirectory, h.root_path, h.oneKind, ?_⟩
  · intro other held hheld
    rw [live?_share] at hheld
    split at hheld
    · rename_i hother
      rw [hother]
      exact hrooted
    · exact h.rooted other held hheld
  · intro other held hheld
    by_cases hother : other = Path.root
    · rw [hother, Volume.live?_root] at hheld
      cases hheld
      exact h.root_made
    · rw [Volume.live?_of_ne_root hother, live?_share] at hheld
      split at hheld
      · cases hheld
        exact hmade
      · exact h.made_of_live? hheld
  · intro other held hheld hkind
    rw [live?_share] at hheld
    split at hheld
    · cases hheld
      have hcontra : (state.heap.get id).isFile = false := hkind
      rw [hfile] at hcontra
      cases hcontra
    · exact h.ownPath other held hheld hkind

theorem get_move (id : NodeId) : (state.commit (.move path target moves)).heap.get id =
    { state.heap.get id with
      path := Heap.pathAfter moves id (state.heap.get id).path } :=
  Heap.get_relocate state.heap moves id

theorem keeps_move : state.heap.Keeps (state.commit (.move path target moves)).heap := by
  refine ⟨Heap.size_le_relocate state.heap moves, ?_, ?_⟩
  · intro id _
    rw [get_move]
  · intro id _
    rw [get_move]

/-- Moves of entries to free paths from the root. An entry that is no regular
file stands under one path, so only the move of that path changes its node's. -/
theorem sound_move (h : state.volume.Sound state.heap)
    (hclear : state.volume.table.Clear moves)
    (hrooted : ∀ move ∈ moves, move.target.Rooted) :
    (state.commit (.move path target moves)).volume.Sound
      (state.commit (.move path target moves)).heap := by
  have hlive : ∀ other held,
      (state.commit (.move path target moves)).volume.table.live? other = some held ↔
        (∃ move ∈ moves, move.target = other ∧ move.id = held) ∨
          (state.volume.table.live? other = some held ∧
            ∀ move ∈ moves, move.source ≠ other) :=
    fun other held => Table.live?_relocate_iff hclear
  have hsize : (state.commit (.move path target moves)).heap.size = state.heap.size :=
    Heap.size_relocate fun move member => h.made_of_live? (hclear.held move member)
  have hmade : ∀ other held,
      (state.commit (.move path target moves)).volume.table.live? other = some held →
        held.index < state.heap.size := by
    intro other held hheld
    rcases (hlive other held).mp hheld with ⟨move, member, -, rfl⟩ | ⟨hstay, -⟩
    · exact h.made_of_live? (hclear.held move member)
    · exact h.made_of_live? hstay
  refine ⟨calm_commit h.toCalm _, ?_, ?_, ?_, ?_, ?_, ?_⟩
  · intro other held hheld
    rcases (hlive other held).mp hheld with ⟨move, member, rfl, -⟩ | ⟨hstay, -⟩
    · exact hrooted move member
    · exact h.rooted other held hstay
  · intro other held hheld
    rw [hsize]
    by_cases hother : other = Path.root
    · rw [hother, Volume.live?_root] at hheld
      cases hheld
      exact h.root_made
    · rw [Volume.live?_of_ne_root hother] at hheld
      exact hmade other held hheld
  · exact (congrArg Node.isDirectory (get_move state.volume.root)).trans h.root_isDirectory
  · refine (congrArg Node.path (get_move state.volume.root)).trans ?_
    rcases Heap.pathAfter_cases moves state.volume.root
        (state.heap.get state.volume.root).path with ⟨last, member, hid, -⟩ | ⟨-, hpath⟩
    · exact absurd hid (h.ne_root (hclear.held last member))
    · exact hpath.trans h.root_path
  · intro id hdirectory
    rw [get_move] at hdirectory ⊢
    exact h.oneKind id hdirectory
  · intro other held hheld hkind
    rw [get_move] at hkind
    exact Heap.path_relocate hclear (fun key hkey => h.ownPath key held hkey hkind) hheld

theorem heap_remove : (state.commit (.remove path)).heap = state.heap := by
  simp only [commit]
  split
  · rfl
  · rfl

theorem volume_remove : (state.commit (.remove path)).volume =
    { state.volume with table := state.volume.table.erase path } := by
  simp only [commit]
  split
  · rfl
  · rfl

theorem sound_remove (h : state.volume.Sound state.heap) :
    (state.commit (.remove path)).volume.Sound (state.commit (.remove path)).heap := by
  have hcalm := calm_commit h.toCalm (.remove path)
  rw [heap_remove]
  rw [volume_remove] at hcalm ⊢
  have hlive : ∀ other id, (state.volume.table.erase path).live? other = some id →
      state.volume.table.live? other = some id := by
    intro other id hheld
    rw [Table.live?_erase] at hheld
    split at hheld
    · cases hheld
    · exact hheld
  refine ⟨hcalm, ?_, ?_, h.root_isDirectory, h.root_path, h.oneKind, ?_⟩
  · intro other id hheld
    exact h.rooted other id (hlive other id hheld)
  · intro other id hheld
    by_cases hother : other = Path.root
    · rw [hother, Volume.live?_root] at hheld
      cases hheld
      exact h.root_made
    · rw [Volume.live?_of_ne_root hother] at hheld
      exact h.made_of_live? (hlive other id hheld)
  · intro other id hheld
    exact h.ownPath other id (hlive other id hheld)

theorem get_rewrite (id other : NodeId) :
    (state.commit (.rewrite id node)).heap.get other =
      if other = id then node else state.heap.get other :=
  Heap.get_set state.heap id other node

theorem size_rewrite : (state.commit (.rewrite id node)).heap.size =
    max state.heap.size (id.index + 1) :=
  Heap.size_set state.heap id node

theorem keeps_rewrite {size : Int} (hcut : (state.heap.get id).truncate size = .ok node) :
    state.heap.Keeps (state.commit (.rewrite id node)).heap := by
  obtain ⟨-, hnode⟩ := Node.truncate_eq_ok hcut
  refine ⟨?_, ?_, ?_⟩
  · rw [size_rewrite]
    omega
  · intro other _
    rw [get_rewrite]
    split
    · rename_i hother
      rw [hother, hnode]
    · rfl
  · intro other _
    rw [get_rewrite]
    split
    · rename_i hother
      rw [hother, hnode]
    · rfl

/-- Another content for a regular file. -/
theorem sound_rewrite (h : state.volume.Sound state.heap) {size : Int}
    (hcut : (state.heap.get id).truncate size = .ok node) :
    (state.commit (.rewrite id node)).volume.Sound
      (state.commit (.rewrite id node)).heap := by
  have hkeeps := keeps_rewrite hcut
  obtain ⟨hfile, hnode⟩ := Node.truncate_eq_ok hcut
  have hother : ∀ other, (state.heap.get other).isFile = false →
      (state.commit (.rewrite id node)).heap.get other = state.heap.get other := by
    intro other hkind
    rw [get_rewrite, if_neg]
    rintro rfl
    rw [hfile] at hkind
    cases hkind
  have hroot := hother state.volume.root (by simp [Node.isFile, h.root_isDirectory])
  have hkind : ∀ other, ((state.commit (.rewrite id node)).heap.get other).isFile =
      (state.heap.get other).isFile := by
    intro other
    rw [get_rewrite]
    split
    · rename_i hsame
      rw [hsame, hnode]
      rfl
    · rfl
  refine ⟨h.toCalm, h.rooted, ?_, ?_, ?_, ?_, ?_⟩
  · intro path held hheld
    exact Nat.lt_of_lt_of_le (h.made path held hheld) hkeeps.size
  · exact (congrArg Node.isDirectory hroot).trans h.root_isDirectory
  · exact (congrArg Node.path hroot).trans h.root_path
  · intro other hdirectory
    rw [get_rewrite] at hdirectory ⊢
    split
    · rename_i hsame
      rw [if_pos hsame, hnode] at hdirectory
      rw [hnode]
      exact h.oneKind id hdirectory
    · rename_i hne
      rw [if_neg hne] at hdirectory
      exact h.oneKind other hdirectory
  · intro path held hheld hfalse
    rw [hkind] at hfalse
    rw [hother held hfalse]
    exact h.ownPath path held hheld hfalse

/-- A permitted change keeps a volume sound, and it keeps its root and all kinds. -/
theorem sound_commit {change : Change} (h : state.volume.Sound state.heap)
    (hchange : change.Permitted state.volume state.heap) :
    (state.commit change).volume.Sound (state.commit change).heap ∧
      state.heap.Keeps (state.commit change).heap := by
  cases hchange with
  | keep => exact ⟨h, .refl state.heap⟩
  | rewrite leads cut => exact ⟨sound_rewrite h cut, keeps_rewrite cut⟩
  | @file path parent free held directory =>
      refine ⟨sound_add h (h.rooted_of_free free held) ?_, keeps_add⟩
      intro hdirectory
      cases hdirectory
  | directory parent free =>
      refine ⟨sound_add h (h.rooted_of_hasParent free parent) ?_, keeps_add⟩
      intro _
      rfl
  | link leads free parent =>
      refine ⟨sound_add h (h.rooted_of_hasParent free parent) ?_, keeps_add⟩
      intro hdirectory
      cases hdirectory
  | @share path target id leads plain free parent =>
      obtain ⟨stop, hstop⟩ := leads.held
      have hfile : (state.heap.get id).isFile = true := by
        unfold Node.isFile
        rw [plain, leads.isLink]
        rfl
      refine ⟨sound_share h ?_ (h.made stop id hstop) hfile, .refl state.heap⟩
      exact h.rooted_of_hasParent free parent
  | @move source target id apart held outside parent free =>
      have hclear : state.volume.table.Clear
          (state.volume.moves id (state.heap.get id).isDirectory source target) := by
        rw [Volume.live?_of_ne_root apart] at held
        exact Volume.clear_moves held fun move member => Volume.table_free (free move member)
      have hfirst := free ⟨id, source, target⟩ (Volume.mem_moves.mpr (Or.inl rfl))
      have htarget : target.Rooted := h.rooted_of_hasParent hfirst parent
      refine ⟨sound_move h hclear ?_, keeps_move⟩
      intro move member
      rcases Volume.mem_moves.mp member with rfl | ⟨-, hunder, -, hrebase⟩
      · exact htarget
      · obtain ⟨rest, hrest⟩ := Path.under_iff.mp (Path.under_rebase hunder target)
        rw [hrebase, hrest]
        exact htarget.append _
  | remove apart leads empty =>
      have hkeeps := Heap.Keeps.refl state.heap
      refine ⟨sound_remove h, ?_⟩
      rw [heap_remove]
      exact hkeeps

theorem root_commit (state : State) (change : Change) :
    (state.commit change).volume.root = state.volume.root := by
  cases change with
  | remove path => rw [volume_remove]
  | keep | rewrite | add | share | move => rfl

theorem settings_commit (state : State) (change : Change) :
    (state.commit change).volume.settings = state.volume.settings := by
  cases change with
  | remove path => rw [volume_remove]
  | keep | rewrite | add | share | move => rfl

theorem injected_commit (state : State) (change : Change) :
    (state.commit change).volume.injected = state.volume.injected := by
  cases change with
  | remove path => rw [volume_remove]
  | keep | rewrite | add | share | move => rfl

theorem sound_start (settings : Settings) :
    (State.start settings).volume.Sound (State.start settings).heap := by
  have hget : ∀ id : NodeId, (State.start settings).heap.get id =
      if id = ⟨0⟩ then { path := Path.root, isDirectory := true } else default :=
    fun id => Heap.get_create {} { path := Path.root, isDirectory := true } id
  refine ⟨calm_start settings, ?_, ?_, rfl, rfl, ?_, ?_⟩
  · intro path id hlive
    cases hlive
  · intro path id hlive
    by_cases hpath : path = Path.root
    · rw [hpath, Volume.live?_root] at hlive
      cases hlive
      exact Nat.zero_lt_one
    · rw [Volume.live?_of_ne_root hpath] at hlive
      cases hlive
  · intro id _
    rw [hget]
    split
    · rfl
    · rfl
  · intro path id hlive
    cases hlive

/-- A run keeps a volume sound, with its root and all kinds. -/
theorem sound_run (h : state.volume.Sound state.heap) (calls : List Call) :
    (state.run calls).volume.Sound (state.run calls).heap ∧
      (state.run calls).volume.root = state.volume.root ∧
      state.heap.Keeps (state.run calls).heap := by
  apply run_calm_induction (motive := fun volume heap =>
    volume.Sound heap ∧ volume.root = state.volume.root ∧ state.heap.Keeps heap)
  · intro volume heap hall
    exact hall.1.toCalm
  · rintro between change ⟨hsound, hroot, hkeeps⟩ hchange
    obtain ⟨hafter, hkept⟩ := sound_commit hsound hchange
    exact ⟨hafter, (root_commit between change).trans hroot, hkeeps.trans hkept⟩
  · exact ⟨h, rfl, .refl state.heap⟩

end State

/-- The plan of a symbolic link, when it is not refused. -/
theorem Call.plan_symlink {call : Call} {volume : Volume} {heap : Heap} {reply : Reply}
    {change : Change} (hservice : call.service = .command)
    (hmethod : call.request.method = .symlink)
    (h : (call.plan volume heap).outcome = .ok (reply, change)) :
    (∃ id, volume.Leads heap call.request.path id) ∧
      change = .add { path := call.request.target, target := call.request.path }
        (.symlinked call.request.target call.request.path) := by
  simp only [Call.plan, hservice, Plan.perform, hmethod, Plan.symlink,
    Query.outcome_bind_eq_ok, Plan.outcome_resolve_eq_ok] at h
  obtain ⟨planned, ⟨id, hleads, _, -, _, -, hchange⟩, hpure⟩ := h
  cases hpure
  cases hchange
  exact ⟨⟨id, hleads⟩, rfl⟩

namespace State

/-- An answered command for a symbolic link has made a link under its target. -/
theorem serve_symlink {state : State} (h : state.volume.Sound state.heap) {call : Call}
    {reply : Reply} (hservice : call.service = .command)
    (hmethod : call.request.method = .symlink)
    (hanswer : call.answer state = .ok reply) :
    (state.serve call).volume.table.live? call.request.target =
        some ⟨state.heap.size⟩ ∧
      state.heap.size < (state.serve call).heap.size ∧
      ((state.serve call).heap.get ⟨state.heap.size⟩).target ≠ [] := by
  obtain ⟨change, hplan, hvolume, hheap⟩ := serve_of_answer_ok h.toCalm hanswer
  obtain ⟨⟨id, hleads⟩, rfl⟩ := Call.plan_symlink hservice hmethod hplan
  rw [hvolume, hheap]
  refine ⟨?_, ?_, ?_⟩
  · rw [live?_add, if_pos rfl]
  · rw [size_add]
    exact Nat.lt_succ_self _
  · rw [get_add, if_pos rfl]
    obtain ⟨held, hheld⟩ := hleads.occupied
    rcases h.live?_rooted hheld with hroot | hrooted
    · rw [hroot]
      simp [Path.root]
    · exact hrooted.ne_nil

/-- What holds of the store after every run from an empty one. Its root never
becomes a key, and it stays the directory it was. No key is stale, and every
key starts with a slash that no slash follows. No node is of two kinds, and
every node made as a symbolic link is one ever after. A directory or a symbolic
link stands under one key, the path of its node. -/
theorem representation_kept (settings : Settings) (calls : List Call) :
    let start := State.start settings
    let state := start.run calls
    let table := state.volume.table
    table.find? Path.root = none ∧
      (state.volume.root = start.volume.root ∧
        (state.node state.volume.root).isDirectory = true ∧
        (state.node state.volume.root).path = Path.root) ∧
      (∀ path, table.find? path ≠ some none) ∧
      (∀ path ∈ table.paths, path.Rooted) ∧
      (∀ id, ¬((state.node id).isDirectory = true ∧ (state.node id).isLink = true)) ∧
      (∀ earlier call later, calls = earlier ++ call :: later →
        call.service = .command → call.request.method = .symlink →
        (∃ reply, call.answer (start.run earlier) = .ok reply) →
          ∃ id, (start.run earlier).heap.size = id.index ∧
            ((start.run earlier).serve call).volume.table.find? call.request.target =
              some (some id) ∧
            (state.node id).target ≠ []) ∧
      (∀ path id, table.find? path = some (some id) → (state.node id).isFile = false →
        (state.node id).path = path ∧
          ∀ other, table.find? other = some (some id) → other = path) := by
  intro start state table
  have hstart := sound_start settings
  obtain ⟨hsound, hroot, -⟩ := sound_run hstart calls
  have hlive : ∀ path id, table.find? path = some (some id) →
      table.live? path = some id := by
    intro path id hfind
    unfold Table.live?
    rw [hfind]
    rfl
  have hkey : ∀ path, table.find? path ≠ none → path.Rooted := by
    intro path hfind
    rw [hsound.tidy.find?_eq] at hfind
    cases hheld : table.live? path with
    | none =>
        rw [hheld] at hfind
        exact absurd rfl hfind
    | some id => exact hsound.rooted path id hheld
  refine ⟨?_, ⟨hroot, hsound.root_isDirectory, hsound.root_path⟩, ?_, ?_, ?_, ?_, ?_⟩
  · by_contra hfind
    exact (hkey Path.root hfind).ne_root rfl
  · intro path hfind
    rw [hsound.tidy.find?_eq] at hfind
    cases hheld : table.live? path with
    | none =>
        rw [hheld] at hfind
        cases hfind
    | some id =>
        rw [hheld] at hfind
        cases hfind
  · intro path member
    obtain ⟨⟨key, value⟩, hentry, rfl⟩ := List.mem_map.mp member
    apply hkey
    rw [Table.find?_of_mem hentry]
    exact Option.some_ne_none value
  · rintro id ⟨hdirectory, hlink⟩
    have hplain : (state.node id).isLink = false := hsound.oneKind id hdirectory
    rw [hplain] at hlink
    cases hlink
  · rintro earlier call later rfl hservice hmethod ⟨reply, hanswer⟩
    obtain ⟨hbefore, -, -⟩ := sound_run hstart earlier
    obtain ⟨hmade, hsize, htarget⟩ := serve_symlink hbefore hservice hmethod hanswer
    have hafter : ((start.run earlier).serve call).volume.Sound
        ((start.run earlier).serve call).heap := (sound_run hbefore [call]).1
    obtain ⟨-, -, hkeeps⟩ := sound_run hafter later
    refine ⟨⟨(start.run earlier).heap.size⟩, rfl, Table.find?_of_live? hmade, ?_⟩
    have hrun : state = ((start.run earlier).serve call).run later := by
      simp only [state, run_append, run_cons]
    rw [hrun]
    have hsame := hkeeps.target ⟨(start.run earlier).heap.size⟩ hsize
    exact fun hempty => htarget (hsame.symm.trans hempty)
  · intro path id hfind hkind
    have hown := hsound.ownPath path id (hlive path id hfind) hkind
    refine ⟨hown, ?_⟩
    intro other hother
    exact (hsound.ownPath other id (hlive other id hother) hkind).symm.trans hown

def directoryMade : Call := ⟨.command, { method := .mkdir, path := ['/', 'd'] }⟩

/-- A link to a directory, from inside the directory. -/
def linkMade : Call :=
  ⟨.command, { method := .symlink, path := ['/', 'd'], target := ['/', 'd', '/', 's'] }⟩

def directoryRenamed : Call :=
  ⟨.command, { method := .rename, path := ['/', 'd'], target := ['/', 'e'] }⟩

/-- When its directory is renamed, the link stays a link under the one key that it
then has. -/
theorem representation_of_renamed_link :
    linkMade.answer ((State.start {}).run [directoryMade]) = .ok .done ∧
      (((State.start {}).run [directoryMade, linkMade, directoryRenamed]).node
        ⟨2⟩).target ≠ [] ∧
      (((State.start {}).run [directoryMade, linkMade, directoryRenamed]).node
        ⟨2⟩).path = ['/', 'e', '/', 's'] := by
  have hanswer : linkMade.answer ((State.start {}).run [directoryMade]) = .ok .done := by
    rfl
  have hsize : ((State.start {}).run [directoryMade]).heap.size = 2 := by decide +kernel
  have hheld : ((State.start {}).run
      [directoryMade, linkMade, directoryRenamed]).volume.table.find?
        ['/', 'e', '/', 's'] = some (some ⟨2⟩) := by decide +kernel
  have hkind : (((State.start {}).run
      [directoryMade, linkMade, directoryRenamed]).node ⟨2⟩).isFile = false := by
    decide +kernel
  obtain ⟨-, -, -, -, -, hlinks, hown⟩ :=
    representation_kept {} [directoryMade, linkMade, directoryRenamed]
  obtain ⟨id, hindex, -, htarget⟩ :=
    hlinks [directoryMade] linkMade [directoryRenamed] rfl rfl rfl ⟨.done, hanswer⟩
  have hid : id = ⟨2⟩ := by
    rw [hsize] at hindex
    cases id
    simp_all
  rw [hid] at htarget
  exact ⟨hanswer, htarget, (hown _ _ hheld hkind).1⟩

end State

end FlatTree
