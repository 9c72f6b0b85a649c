import FlatTree.Proofs.Hierarchy
import FlatTree.Proofs.Representation

/-!
A hierarchy mirrors a volume over a heap when walking the tree over the segments
of a canonical path finds what looking up its text finds, and the two agree on
kinds and contents. Each change of a volume has its change of the tree: a new
entry and a second path are an attached leaf, a removal detaches one, and a
rename moves a whole subtree, because the entries below a path are the places
past it.
-/

namespace FlatTree

namespace Hierarchy

/-- A tree that is found by walking where a volume is found by looking up. -/
structure Mirrors (hierarchy : Hierarchy) (volume : Volume) (heap : Heap) : Prop where
  linkless : ∀ id, (heap.get id).isLink = false
  ordered : hierarchy.tree.Ordered
  made : hierarchy.made = heap.size
  keys : ∀ path id, volume.table.live? path = some id → path.Canonical
  held : ∀ path : List Segment, (∀ segment ∈ path, Path.Proper segment) →
    volume.live? (Path.ofSegments path) = (hierarchy.tree.look path).map Prod.fst
  kind : ∀ path id isDirectory, hierarchy.tree.look path = some (id, isDirectory) →
    (heap.get id).isDirectory = isDirectory
  content : ∀ path id, hierarchy.tree.look path = some (id, false) →
    hierarchy.content id = (heap.get id).content

namespace Mirrors

variable {hierarchy : Hierarchy} {volume : Volume} {heap : Heap}
  {path source target : List Segment} {sub : Tree} {id : NodeId} {isDirectory : Bool}

section

variable (h : hierarchy.Mirrors volume heap)

include h

theorem live?_of_walk (hwalk : hierarchy.tree.walk path = some sub) :
    volume.live? (Path.ofSegments path) = some sub.nodeId := by
  rw [h.held path (h.ordered.walk hwalk).2, Tree.look, hwalk]
  rfl

theorem live?_of_none (hpath : ∀ segment ∈ path, Path.Proper segment)
    (hwalk : hierarchy.tree.walk path = none) :
    volume.live? (Path.ofSegments path) = none := by
  rw [h.held path hpath, Tree.look, hwalk]
  rfl

theorem isDirectory_of_walk (hwalk : hierarchy.tree.walk path = some sub) :
    (heap.get sub.nodeId).isDirectory = sub.isDirectory := by
  apply h.kind path
  rw [Tree.look, hwalk]
  rfl

theorem proper_of_look (hlook : hierarchy.tree.look path = some (id, isDirectory)) :
    ∀ segment ∈ path, Path.Proper segment := by
  obtain ⟨sub, hwalk, -⟩ := Option.map_eq_some_iff.mp hlook
  exact (h.ordered.walk hwalk).2

theorem made_of_look (hsound : volume.Sound heap)
    (hlook : hierarchy.tree.look path = some (id, isDirectory)) :
    id.index < heap.size := by
  apply hsound.made (Path.ofSegments path)
  rw [h.held path (h.proper_of_look hlook), hlook]
  rfl

/-- Past the root what a volume has under a path is what its table has. -/
theorem table_held (hpath : ∀ segment ∈ path, Path.Proper segment) (hne : path ≠ []) :
    volume.table.live? (Path.ofSegments path) =
      (hierarchy.tree.look path).map Prod.fst := by
  rw [← Volume.live?_of_ne_root (Path.ofSegments_ne_root hpath hne)]
  exact h.held path hpath

/-- A change that keeps the root is mirrored if the table is. -/
theorem held_of_table {after : Volume} {tree : Tree} (hroot : after.root = volume.root)
    (hlook : tree.look [] = hierarchy.tree.look [])
    (htable : ∀ path : List Segment, path ≠ [] → (∀ segment ∈ path, Path.Proper segment) →
      after.table.live? (Path.ofSegments path) = (tree.look path).map Prod.fst)
    (path : List Segment) (hpath : ∀ segment ∈ path, Path.Proper segment) :
    after.live? (Path.ofSegments path) = (tree.look path).map Prod.fst := by
  by_cases hne : path = []
  · rw [hne, hlook, ← h.held [] (by simp), Path.ofSegments_nil, Volume.live?_root,
      Volume.live?_root, hroot]
  · rw [Volume.live?_of_ne_root (Path.ofSegments_ne_root hpath hne)]
    exact htable path hne hpath

/-- An entry of the table stands at a place of the tree. -/
theorem look_of_live? (hlive : volume.table.live? (Path.ofSegments path) = some id)
    (hpath : ∀ segment ∈ path, Path.Proper segment) (hne : path ≠ []) :
    ∃ isDirectory, hierarchy.tree.look path = some (id, isDirectory) := by
  rw [h.table_held hpath hne] at hlive
  obtain ⟨⟨held, isDirectory⟩, hlook, rfl⟩ := Option.map_eq_some_iff.mp hlive
  exact ⟨isDirectory, hlook⟩

theorem table_live?_of_walk (hwalk : hierarchy.tree.walk path = some sub) (hne : path ≠ []) :
    volume.table.live? (Path.ofSegments path) = some sub.nodeId := by
  rw [h.table_held (h.ordered.walk hwalk).2 hne, Tree.look, hwalk]
  rfl

/-- A directory knows the path at which it stands. -/
theorem path_of_walk (hsound : volume.Sound heap) {entries : List (Segment × Tree)}
    (hwalk : hierarchy.tree.walk path = some (.directory id entries)) :
    (heap.get id).path = Path.ofSegments path := by
  by_cases hne : path = []
  · have hheld := h.live?_of_walk hwalk
    rw [hne, Path.ofSegments_nil, Volume.live?_root] at hheld
    cases hheld
    rw [hne]
    exact hsound.root_path
  · apply hsound.ownPath _ _ (h.table_live?_of_walk hwalk hne)
    have hdirectory := h.isDirectory_of_walk hwalk
    unfold Node.isFile
    rw [hdirectory]
    rfl

/-- The entries of a directory are what the table has right below its path. -/
theorem children_of_walk (hsound : volume.Sound heap) {entries : List (Segment × Tree)}
    (hwalk : hierarchy.tree.walk path = some (.directory id entries)) :
    volume.children (Path.ofSegments path) =
      entries.map fun entry => Path.ofSegments (path ++ [entry.1]) := by
  obtain ⟨hordered, hpath⟩ := h.ordered.walk hwalk
  obtain _ | ⟨_, _, hsorted, hproper, -⟩ := hordered
  have hconcat : ∀ name, Path.Proper name →
      ∀ segment ∈ path ++ [name], Path.Proper segment := by
    intro name hname segment member
    rcases List.mem_append.mp member with hleft | hright
    · exact hpath segment hleft
    · rw [List.mem_singleton.mp hright]
      exact hname
  have hentry : ∀ name, hierarchy.tree.walk (path ++ [name]) = entries.lookup name := by
    intro name
    rw [Tree.walk_concat, hwalk]
    rfl
  unfold Volume.children
  apply Path.sort_eq_of_mem_iff
  · exact List.Nodup.filter _ volume.table.nodup_live
  · rw [List.pairwise_map]
    refine hsorted.imp ?_
    intro first second hle
    rw [Path.le_ofSegments_concat]
    exact hle.2
  · rw [List.Nodup, List.pairwise_map]
    refine hsorted.imp_of_mem ?_
    intro first second hfirst hsecond hne hsame
    have heq := Path.ofSegments_injective (hconcat _ (hproper first hfirst))
      (hconcat _ (hproper second hsecond)) hsame
    exact hne.1 (by simpa using heq)
  · intro text
    rw [List.mem_filter, List.mem_map, List.mem_map, beq_iff_eq]
    constructor
    · rintro ⟨⟨name, child⟩, member, rfl⟩
      have hname := hproper _ member
      have hchild := hentry name
      rw [Tree.lookup_of_mem hsorted member] at hchild
      refine ⟨⟨(_, child.nodeId), ?_, rfl⟩, Path.parent_ofSegments hpath hname⟩
      exact Table.mem_live.mpr (h.table_live?_of_walk hchild (by simp))
    · rintro ⟨⟨⟨key, held⟩, member, rfl⟩, hparent⟩
      have hlive := Table.mem_live.mp member
      obtain ⟨place, hplace, rfl⟩ := h.keys key held hlive
      have hne : place ≠ [] := by
        rintro rfl
        exact (hsound.rooted _ _ hlive).ne_root rfl
      obtain ⟨front, name, rfl⟩ := (List.eq_nil_or_concat place).resolve_left hne
      rw [List.concat_eq_append] at hplace hlive hparent hne ⊢
      have hfront : ∀ segment ∈ front, Path.Proper segment :=
        fun segment inner => hplace segment (by simp [inner])
      have hname := hplace name (by simp)
      rw [Path.parent_ofSegments hfront hname] at hparent
      have hsame := Path.ofSegments_injective hfront hpath hparent
      rw [hsame] at hplace hlive hne ⊢
      obtain ⟨isDirectory, hlook⟩ := h.look_of_live? hlive hplace hne
      obtain ⟨child, hchild, -⟩ := Option.map_eq_some_iff.mp hlook
      rw [hentry] at hchild
      exact ⟨(name, child), Tree.mem_of_lookup hchild, rfl⟩

theorem listing_of_walk (hsound : volume.Sound heap) {entries : List (Segment × Tree)}
    (hwalk : hierarchy.tree.walk path = some (.directory id entries)) :
    (volume.children (heap.get id).path).filterMap volume.table.live? =
      entries.map fun entry => entry.2.nodeId := by
  obtain _ | ⟨_, _, hsorted, -, -⟩ := (h.ordered.walk hwalk).1
  rw [h.path_of_walk hsound hwalk, h.children_of_walk hsound hwalk, List.filterMap_map,
    ← List.filterMap_eq_map]
  apply List.filterMap_congr
  intro entry member
  apply h.table_live?_of_walk _ (by simp)
  rw [Tree.walk_concat, hwalk]
  exact Tree.lookup_of_mem hsorted member

/-- Below a path there is something just when a walk over it ends at a directory
with entries. -/
theorem below_eq_nil_iff (hpath : ∀ segment ∈ path, Path.Proper segment) (hne : path ≠ []) :
    volume.below (Path.ofSegments path) = [] ↔
      ∀ sub, hierarchy.tree.walk path = some sub → sub.entries = [] := by
  constructor
  · intro hbelow sub hwalk
    by_contra hentries
    obtain ⟨⟨name, child⟩, rest, hcons⟩ := List.exists_cons_of_ne_nil hentries
    have hchild : hierarchy.tree.walk (path ++ [name]) = some child := by
      rw [Tree.walk_concat, hwalk, Option.bind_some, hcons, Tree.lookup_cons_eq,
        if_pos rfl]
    have hmember : (Path.ofSegments (path ++ [name]), child.nodeId) ∈
        volume.below (Path.ofSegments path) := by
      refine List.mem_filter.mpr ⟨?_, ?_⟩
      · exact Table.mem_live.mpr (h.table_live?_of_walk hchild (by simp))
      · exact decide_eq_true ((Path.under_ofSegments hpath (h.ordered.walk hchild).2
          hne).mpr ⟨[name], by simp, rfl⟩)
    rw [hbelow] at hmember
    cases hmember
  · intro hleaf
    rw [Volume.below, List.filter_eq_nil_iff]
    rintro ⟨key, held⟩ member hunder
    have hlive := Table.mem_live.mp member
    obtain ⟨place, hplace, rfl⟩ := h.keys key held hlive
    obtain ⟨rest, hrest, rfl⟩ :=
      (Path.under_ofSegments hpath hplace hne).mp (of_decide_eq_true hunder)
    obtain ⟨isDirectory, hlook⟩ := h.look_of_live? hlive hplace (by simp [hne])
    obtain ⟨next, more, rfl⟩ := List.exists_cons_of_ne_nil hrest
    rw [Tree.look_append] at hlook
    obtain ⟨sub, hwalk, hsub⟩ := Option.bind_eq_some_iff.mp hlook
    rw [Tree.look_cons, hleaf sub hwalk] at hsub
    cases hsub

end

section

variable {state : State} {node : Node} {record : Record} {entries : List (Segment × Tree)}
  (h : hierarchy.Mirrors state.volume state.heap)
  (hsound : state.volume.Sound state.heap)

include h hsound

/-- A new file or a new, empty directory is a new leaf. -/
theorem add (hpath : ∀ segment ∈ path, Path.Proper segment)
    (hparent : hierarchy.tree.walk path.dropLast = some (.directory id entries))
    (hfree : hierarchy.tree.walk path = none) (hnode : node.path = Path.ofSegments path)
    (hlink : node.isLink = false) (hcontent : node.content = []) {child : NodeId → Tree}
    (hleaf : (child ⟨state.heap.size⟩).entries = [])
    (hlabel : (child ⟨state.heap.size⟩).label = (⟨state.heap.size⟩, node.isDirectory))
    (hordered : (child ⟨state.heap.size⟩).Ordered) :
    (hierarchy.create path child).Mirrors (state.commit (.add node record)).volume
      (state.commit (.add node record)).heap := by
  have hne := Tree.ne_nil_of_walk hfree
  have hlook : ∀ other, (hierarchy.create path child).tree.look other =
      if other = path then some (⟨state.heap.size⟩, node.isDirectory)
      else hierarchy.tree.look other := by
    intro other
    unfold create
    rw [h.made, ← hlabel]
    exact Tree.look_attach_leaf hne hparent hfree hleaf other
  have hold : ∀ other id isDirectory,
      hierarchy.tree.look other = some (id, isDirectory) →
        (state.commit (.add node record)).heap.get id = state.heap.get id := by
    intro other id isDirectory hother
    exact State.get_add_of_made (h.made_of_look hsound hother)
  refine ⟨?_, ?_, ?_, ?_, h.held_of_table rfl ?_ ?_, ?_, ?_⟩
  · intro id
    rw [State.get_add]
    split
    · exact hlink
    · exact h.linkless id
  · unfold create
    rw [h.made]
    exact h.ordered.attach hpath hordered
  · rw [State.size_add, ← h.made]
    rfl
  · intro other id hlive
    rw [State.live?_add] at hlive
    split at hlive
    · rename_i hother
      exact ⟨path, hpath, hother.trans hnode⟩
    · exact h.keys other id hlive
  · rw [hlook, if_neg hne.symm]
  · intro other hother hproper
    rw [State.live?_add, hlook, hnode]
    by_cases hsame : other = path
    · rw [if_pos hsame, if_pos (congrArg _ hsame)]
      rfl
    · rw [if_neg hsame, if_neg fun heq => hsame (Path.ofSegments_injective hproper hpath heq)]
      exact h.table_held hproper hother
  · intro other id isDirectory hother
    rw [hlook] at hother
    split at hother
    · cases hother
      rw [State.get_add, if_pos rfl]
    · rw [hold other id isDirectory hother]
      exact h.kind other id isDirectory hother
  · intro other id hother
    rw [hlook] at hother
    split at hother
    · have hid : id = ⟨state.heap.size⟩ := by
        simp only [Option.some.injEq, Prod.mk.injEq] at hother
        exact hother.1.symm
      rw [hid, State.get_add, if_pos rfl]
      unfold create
      rw [h.made]
      simp only [if_pos]
      exact hcontent.symm
    · rw [hold other id false hother]
      have hne : id ≠ ⟨hierarchy.made⟩ := by
        rw [h.made]
        rintro rfl
        exact Nat.lt_irrefl _ (h.made_of_look hsound hother)
      unfold create
      simp only [if_neg hne]
      exact h.content other id hother

omit hsound in
/-- A second path for a file is a leaf with the file's node. -/
theorem share {text : Path} (hsource : hierarchy.tree.walk source = some (.file id))
    (htarget : ∀ segment ∈ target, Path.Proper segment) {directory : NodeId}
    (hparent : hierarchy.tree.walk target.dropLast = some (.directory directory entries))
    (hfree : hierarchy.tree.walk target = none) :
    ({ hierarchy with tree := hierarchy.tree.attach target (.file id) } : Hierarchy).Mirrors
      (state.commit (.share (Path.ofSegments target) text id)).volume
      (state.commit (.share (Path.ofSegments target) text id)).heap := by
  have hne := Tree.ne_nil_of_walk hfree
  have hlook : ∀ other, (hierarchy.tree.attach target (.file id)).look other =
      if other = target then some (id, false) else hierarchy.tree.look other :=
    Tree.look_attach_leaf hne hparent hfree rfl
  have hfile : hierarchy.tree.look source = some (id, false) := by
    rw [Tree.look, hsource]
    rfl
  refine ⟨h.linkless, h.ordered.attach htarget (.file id), h.made, ?_,
    h.held_of_table rfl ?_ ?_, ?_, ?_⟩
  · intro other held hheld
    rw [State.live?_share] at hheld
    split at hheld
    · rename_i hother
      exact ⟨target, htarget, hother⟩
    · exact h.keys other held hheld
  · rw [hlook, if_neg hne.symm]
  · intro other hother hproper
    rw [hlook, State.live?_share]
    by_cases hsame : other = target
    · rw [if_pos hsame, if_pos (congrArg _ hsame)]
      rfl
    · rw [if_neg hsame,
        if_neg fun heq => hsame (Path.ofSegments_injective hproper htarget heq)]
      exact h.table_held hproper hother
  · intro other held isDirectory hother
    rw [hlook] at hother
    split at hother
    · cases hother
      exact h.kind source id false hfile
    · exact h.kind other held isDirectory hother
  · intro other held hother
    rw [hlook] at hother
    split at hother
    · cases hother
      exact h.content source id hfile
    · exact h.content other held hother

omit hsound in
/-- Removing an entry without entries detaches a leaf. -/
theorem remove (hpath : ∀ segment ∈ path, Path.Proper segment) (hne : path ≠ [])
    (hleaf : ∀ sub, hierarchy.tree.walk path = some sub → sub.entries = []) :
    ({ hierarchy with tree := hierarchy.tree.detach path } : Hierarchy).Mirrors
      (state.commit (.remove (Path.ofSegments path))).volume
      (state.commit (.remove (Path.ofSegments path))).heap := by
  have hlook := Tree.look_detach_leaf hne hleaf
  rw [State.heap_remove, State.volume_remove]
  refine ⟨h.linkless, h.ordered.detach path, h.made, ?_, h.held_of_table rfl ?_ ?_, ?_, ?_⟩
  · intro other id hlive
    rw [Table.live?_erase] at hlive
    split at hlive
    · cases hlive
    · exact h.keys other id hlive
  · rw [hlook, if_neg hne.symm]
  · intro other hother hproper
    rw [hlook, Table.live?_erase]
    by_cases hsame : other = path
    · rw [if_pos hsame, if_pos (congrArg _ hsame)]
      rfl
    · rw [if_neg hsame, if_neg fun heq => hsame (Path.ofSegments_injective hproper hpath heq)]
      exact h.table_held hproper hother
  · intro other id isDirectory hother
    rw [hlook] at hother
    split at hother
    · cases hother
    · exact h.kind other id isDirectory hother
  · intro other id hother
    rw [hlook] at hother
    split at hother
    · cases hother
    · exact h.content other id hother

/-- Removing a path without an entry changes nothing. -/
theorem remove_absent {text : Path} (hnone : state.volume.table.live? text = none) :
    hierarchy.Mirrors (state.commit (.remove text)).volume
      (state.commit (.remove text)).heap := by
  rw [State.heap_remove, State.volume_remove, hsound.tidy.erase_eq hnone]
  exact h

/-- Another size for a file. -/
theorem rewrite {size : Int} (hwalk : hierarchy.tree.walk path = some (.file id))
    (hcut : (state.heap.get id).truncate size = .ok node) :
    ({ hierarchy with
      content := fun other =>
        if other = id then (hierarchy.content id).resize size.toNat
        else hierarchy.content other } : Hierarchy).Mirrors
      (state.commit (.rewrite id node)).volume (state.commit (.rewrite id node)).heap := by
  obtain ⟨-, hnode⟩ := Node.truncate_eq_ok hcut
  have hfile : hierarchy.tree.look path = some (id, false) := by
    rw [Tree.look, hwalk]
    rfl
  have hmade := h.made_of_look hsound hfile
  refine ⟨?_, h.ordered, ?_, h.keys, h.held, ?_, ?_⟩
  · intro other
    rw [State.get_rewrite]
    split
    · rw [hnode]
      exact h.linkless id
    · exact h.linkless other
  · have hold := h.made
    change hierarchy.made = _
    rw [State.size_rewrite, hold]
    omega
  · intro other held isDirectory hother
    have hkind := h.kind other held isDirectory hother
    rw [State.get_rewrite]
    split
    · rename_i hsame
      rw [hnode]
      rw [hsame] at hkind
      exact hkind
    · exact hkind
  · intro other held hother
    have hold := h.content other held hother
    rw [State.get_rewrite]
    split
    · rename_i hsame
      rw [hsame] at hold ⊢
      rw [hnode]
      simp only [if_pos]
      rw [hold]
    · rename_i hne
      simp only [if_neg hne]
      exact hold

end

/-! ### Renames -/

section

variable {state : State} {entries : List (Segment × Tree)} {directory : NodeId}
  (h : hierarchy.Mirrors state.volume state.heap)
  (hsound : state.volume.Sound state.heap)

include h

/-- The moves of a rename are those of the places from the source on. -/
theorem mem_moves_iff (hwalk : hierarchy.tree.walk source = some sub)
    (hsource : source ≠ []) (htarget : target ≠ []) {move : Move} :
    move ∈ state.volume.moves sub.nodeId (state.heap.get sub.nodeId).isDirectory
        (Path.ofSegments source) (Path.ofSegments target) ↔
      ∃ rest id isDirectory, sub.look rest = some (id, isDirectory) ∧
        move = ⟨id, Path.ofSegments (source ++ rest), Path.ofSegments (target ++ rest)⟩ := by
  have hproper := (h.ordered.walk hwalk).2
  rw [Volume.mem_moves, h.isDirectory_of_walk hwalk]
  constructor
  · rintro (rfl | ⟨-, hunder, hlive, htext⟩)
    · exact ⟨[], sub.nodeId, sub.isDirectory, Tree.look_nil sub, by simp⟩
    · obtain ⟨path, hpath, hkey⟩ := h.keys _ _ hlive
      rw [hkey] at hunder hlive
      obtain ⟨rest, hrest, rfl⟩ := (Path.under_ofSegments hproper hpath hsource).mp hunder
      obtain ⟨isDirectory, hlook⟩ := h.look_of_live? hlive hpath (by simp [hrest])
      rw [Tree.look_append_of_walk hwalk] at hlook
      refine ⟨rest, move.id, isDirectory, hlook, ?_⟩
      rw [hkey, Path.rebase_ofSegments hsource htarget hrest] at htext
      rw [← hkey, ← htext]
  · rintro ⟨rest, id, isDirectory, hlook, rfl⟩
    by_cases hrest : rest = []
    · left
      rw [hrest, Tree.look_nil] at hlook
      cases hlook
      simp [hrest]
    · right
      have hwhole := Tree.look_append_of_walk hwalk rest
      rw [hlook] at hwhole
      have hpath := h.proper_of_look hwhole
      have hlive : state.volume.table.live? (Path.ofSegments (source ++ rest)) =
          some id := by
        rw [h.table_held hpath (by simp [hrest]), hwhole]
        rfl
      refine ⟨?_, ?_, hlive, ?_⟩
      · cases sub with
        | directory id entries => rfl
        | file id =>
            rw [Tree.look_file, if_neg hrest] at hlook
            cases hlook
      · exact (Path.under_ofSegments hproper hpath hsource).mpr ⟨rest, hrest, rfl⟩
      · rw [Path.rebase_ofSegments hsource htarget hrest]

/-- The segments past the source of a rename are proper, and past the target too. -/
theorem proper_of_look_past (hwalk : hierarchy.tree.walk source = some sub)
    (htarget : ∀ segment ∈ target, Path.Proper segment) {rest : List Segment}
    (hlook : sub.look rest = some (id, isDirectory)) :
    (∀ segment ∈ source ++ rest, Path.Proper segment) ∧
      ∀ segment ∈ target ++ rest, Path.Proper segment := by
  have hwhole := h.proper_of_look ((Tree.look_append_of_walk hwalk rest).trans hlook)
  refine ⟨hwhole, ?_⟩
  intro segment member
  rcases List.mem_append.mp member with hleft | hright
  · exact htarget segment hleft
  · exact hwhole segment (List.mem_append_right source hright)

/-- The moves of a rename go to free paths, for nothing is past a free one. -/
theorem free_of_mem_moves (hwalk : hierarchy.tree.walk source = some sub)
    (hsource : source ≠ []) (htarget : ∀ segment ∈ target, Path.Proper segment)
    (hfree : hierarchy.tree.walk target = none) {move : Move}
    (member : move ∈ state.volume.moves sub.nodeId
      (state.heap.get sub.nodeId).isDirectory
      (Path.ofSegments source) (Path.ofSegments target)) :
    state.volume.live? move.target = none := by
  have hnone : hierarchy.tree.look target = none := by
    rw [Tree.look, hfree]
    rfl
  obtain ⟨rest, id, isDirectory, hlook, rfl⟩ :=
    (h.mem_moves_iff hwalk hsource (Tree.ne_nil_of_walk hfree)).mp member
  rw [h.held _ (h.proper_of_look_past hwalk htarget hlook).2, Tree.look_append_of_none hnone]
  rfl

theorem clear_moves (hwalk : hierarchy.tree.walk source = some sub)
    (hsource : source ≠ []) (htarget : ∀ segment ∈ target, Path.Proper segment)
    (hfree : hierarchy.tree.walk target = none) :
    state.volume.table.Clear (state.volume.moves sub.nodeId
      (state.heap.get sub.nodeId).isDirectory
      (Path.ofSegments source) (Path.ofSegments target)) := by
  apply Volume.clear_moves (h.table_live?_of_walk hwalk hsource)
  intro move member
  exact Volume.table_free (h.free_of_mem_moves hwalk hsource htarget hfree member)

/-- What stands under a path after the moves of a rename is what is found there once
the subtree is at its new place. -/
theorem live?_move_iff (hwalk : hierarchy.tree.walk source = some sub)
    (hsource : source ≠ []) (htarget : ∀ segment ∈ target, Path.Proper segment)
    (hfree : hierarchy.tree.walk target = none) {moves : List Move}
    (hmoves : moves = state.volume.moves sub.nodeId (state.heap.get sub.nodeId).isDirectory
      (Path.ofSegments source) (Path.ofSegments target)) (hne : path ≠ [])
    (hpath : ∀ segment ∈ path, Path.Proper segment) :
    ((∃ move ∈ moves, move.target = Path.ofSegments path ∧ move.id = id) ∨
        (state.volume.table.live? (Path.ofSegments path) = some id ∧
          ∀ move ∈ moves, move.source ≠ Path.ofSegments path)) ↔
      (if target <+: path then sub.look (path.drop target.length)
        else if source <+: path then none
        else hierarchy.tree.look path).map Prod.fst = some id := by
  have hmember : ∀ move, move ∈ moves ↔ ∃ rest id isDirectory,
      sub.look rest = some (id, isDirectory) ∧
        move = ⟨id, Path.ofSegments (source ++ rest), Path.ofSegments (target ++ rest)⟩ := by
    intro move
    rw [hmoves]
    exact h.mem_moves_iff hwalk hsource (Tree.ne_nil_of_walk hfree)
  rw [h.table_held hpath hne]
  by_cases htargets : target <+: path
  · obtain ⟨rest, rfl⟩ := htargets
    have hnothing : hierarchy.tree.look (target ++ rest) = none := by
      apply Tree.look_append_of_none
      rw [Tree.look, hfree]
      rfl
    rw [if_pos (List.prefix_append target rest), List.drop_left, hnothing]
    constructor
    · rintro (⟨move, member, hsame, rfl⟩ | ⟨hnone, -⟩)
      · obtain ⟨more, id, isDirectory, hmore, rfl⟩ := (hmember move).mp member
        have heq := Path.ofSegments_injective
          (h.proper_of_look_past hwalk htarget hmore).2 hpath hsame
        rw [← List.append_cancel_left heq, hmore]
        rfl
      · cases hnone
    · intro hfound
      obtain ⟨⟨held, isDirectory⟩, hrest, rfl⟩ := Option.map_eq_some_iff.mp hfound
      exact Or.inl ⟨_, (hmember _).mpr ⟨rest, held, isDirectory, hrest, rfl⟩, rfl, rfl⟩
  · rw [if_neg htargets]
    constructor
    · rintro (⟨move, member, hsame, -⟩ | ⟨hstay, hnone⟩)
      · obtain ⟨more, id, isDirectory, hmore, rfl⟩ := (hmember move).mp member
        have heq := Path.ofSegments_injective
          (h.proper_of_look_past hwalk htarget hmore).2 hpath hsame
        exact absurd ⟨more, heq⟩ htargets
      · rw [if_neg]
        · exact hstay
        · rintro ⟨rest, rfl⟩
          obtain ⟨⟨held, isDirectory⟩, hrest, rfl⟩ := Option.map_eq_some_iff.mp hstay
          rw [Tree.look_append_of_walk hwalk] at hrest
          exact hnone _ ((hmember _).mpr ⟨rest, held, isDirectory, hrest, rfl⟩) rfl
    · intro hfound
      split at hfound
      · cases hfound
      · rename_i hsources
        refine Or.inr ⟨hfound, ?_⟩
        intro move member hsame
        obtain ⟨more, id, isDirectory, hmore, rfl⟩ := (hmember move).mp member
        have heq := Path.ofSegments_injective
          (h.proper_of_look_past hwalk htarget hmore).1 hpath hsame
        exact hsources ⟨more, heq⟩

include hsound

/-- A rename detaches a subtree and attaches it where nothing was. Every place
from the source on moves, and the texts of the others are no text of a move. -/
theorem move (hwalk : hierarchy.tree.walk source = some sub) (hsource : source ≠ [])
    (htarget : ∀ segment ∈ target, Path.Proper segment)
    (hparent : hierarchy.tree.walk target.dropLast = some (.directory directory entries))
    (hfree : hierarchy.tree.walk target = none) (hapart : ¬source <+: target)
    {moves : List Move}
    (hmoves : moves = state.volume.moves sub.nodeId (state.heap.get sub.nodeId).isDirectory
      (Path.ofSegments source) (Path.ofSegments target)) (from_ to_ : Path) :
    ({ hierarchy with
      tree := (hierarchy.tree.detach source).attach target sub } : Hierarchy).Mirrors
      (state.commit (.move from_ to_ moves)).volume
      (state.commit (.move from_ to_ moves)).heap := by
  have hne := Tree.ne_nil_of_walk hfree
  have hlook : ∀ other,
      ((hierarchy.tree.detach source).attach target sub).look other =
        if target <+: other then sub.look (other.drop target.length)
        else if source <+: other then none else hierarchy.tree.look other :=
    Tree.look_transplant hsource hne hparent hapart sub
  have hclear : state.volume.table.Clear moves := by
    rw [hmoves]
    exact h.clear_moves hwalk hsource htarget hfree
  have hlive : ∀ other id,
      (state.commit (.move from_ to_ moves)).volume.table.live? other = some id ↔
        (∃ move ∈ moves, move.target = other ∧ move.id = id) ∨
          (state.volume.table.live? other = some id ∧
            ∀ move ∈ moves, move.source ≠ other) :=
    fun other id => Table.live?_relocate_iff hclear
  have hseen : ∀ other id isDirectory,
      ((hierarchy.tree.detach source).attach target sub).look other =
        some (id, isDirectory) →
      ∃ place, hierarchy.tree.look place = some (id, isDirectory) := by
    intro other id isDirectory hother
    rw [hlook] at hother
    split at hother
    · exact ⟨_, (Tree.look_append_of_walk hwalk _).trans hother⟩
    · split at hother
      · cases hother
      · exact ⟨other, hother⟩
  refine ⟨?_, (h.ordered.detach source).attach htarget (h.ordered.walk hwalk).1, ?_, ?_,
    h.held_of_table rfl ?_ ?_, ?_, ?_⟩
  · intro id
    rw [State.get_move]
    exact h.linkless id
  · have hsize : (state.commit (.move from_ to_ moves)).heap.size = state.heap.size :=
      Heap.size_relocate fun move member => hsound.made_of_live? (hclear.held move member)
    rw [hsize]
    exact h.made
  · intro other id hother
    rcases (hlive other id).mp hother with ⟨move, member, rfl, -⟩ | ⟨hstay, -⟩
    · rw [hmoves] at member
      obtain ⟨rest, id, isDirectory, hrest, rfl⟩ :=
        (h.mem_moves_iff hwalk hsource hne).mp member
      exact ⟨target ++ rest, (h.proper_of_look_past hwalk htarget hrest).2, rfl⟩
    · exact h.keys other id hstay
  · rw [hlook, if_neg (by simp [hne]), if_neg (by simp [hsource])]
  · intro other hother hproper
    apply Option.ext
    intro id
    rw [hlive, hlook]
    exact h.live?_move_iff hwalk hsource htarget hfree hmoves hother hproper
  · intro other id isDirectory hother
    obtain ⟨place, hplace⟩ := hseen other id isDirectory hother
    rw [State.get_move]
    exact h.kind place id isDirectory hplace
  · intro other id hother
    obtain ⟨place, hplace⟩ := hseen other id false hother
    rw [State.get_move]
    exact h.content place id hplace

end

end Mirrors

end Hierarchy

end FlatTree
