import FlatTree.Proofs.LiveTable
import FlatTree.Proofs.PathLaws

/-!
What the moves of a rename do to a table and to a heap. Moves are clear of a
table when they name different live entries and bring them to different free
paths (`Table.Clear`); the checks of a rename make sure of that. Clear moves
exchange the paths of the entries they name and touch no other entry, and a node
that is moved ends with the path of its last move.
-/

namespace FlatTree

namespace Table

/-- Moves of different live entries to different free paths. -/
structure Clear (table : Table) (moves : List Move) : Prop where
  sources : (moves.map Move.source).Nodup
  targets : (moves.map Move.target).Nodup
  held : ∀ move ∈ moves, table.live? move.source = some move.id
  free : ∀ move ∈ moves, table.live? move.target = none

theorem live?_foldl_erase (table : Table) (moves : List Move) (path : Path) :
    (moves.foldl (fun table move => table.erase move.source) table).live? path =
      if path ∈ moves.map Move.source then none else table.live? path := by
  induction moves generalizing table with
  | nil => simp
  | cons move rest ih =>
      rw [List.foldl_cons, ih, live?_erase]
      by_cases hhead : path = move.source
      · simp [hhead]
      · simp [hhead]

theorem live?_foldl_insert_of_notMem (table : Table) (moves : List Move) {path : Path}
    (h : path ∉ moves.map Move.target) :
    (moves.foldl (fun table move => table.insert move.target (some move.id)) table).live?
      path = table.live? path := by
  induction moves generalizing table with
  | nil => rfl
  | cons move rest ih =>
      simp only [List.map_cons, List.mem_cons, not_or] at h
      rw [List.foldl_cons, ih _ h.2, live?_insert, if_neg h.1]

theorem live?_foldl_insert_of_mem (table : Table) {moves : List Move} {move : Move}
    (hnodup : (moves.map Move.target).Nodup) (member : move ∈ moves) :
    (moves.foldl (fun table move => table.insert move.target (some move.id)) table).live?
      move.target = some move.id := by
  induction moves generalizing table with
  | nil => cases member
  | cons first rest ih =>
      simp only [List.map_cons, List.nodup_cons] at hnodup
      rw [List.foldl_cons]
      rcases List.mem_cons.mp member with rfl | later
      · rw [live?_foldl_insert_of_notMem _ rest hnodup.1, live?_insert, if_pos rfl]
      · exact ih _ hnodup.2 later

/-- A moved entry stands under its target. -/
theorem live?_relocate_target {table : Table} {moves : List Move} (h : table.Clear moves)
    {move : Move} (member : move ∈ moves) :
    (table.relocate moves).live? move.target = some move.id :=
  live?_foldl_insert_of_mem _ h.targets member

/-- Away from the targets an entry stays where it was, unless it was moved. -/
theorem live?_relocate_of_notMem {table : Table} {moves : List Move} {path : Path}
    (h : path ∉ moves.map Move.target) :
    (table.relocate moves).live? path =
      if path ∈ moves.map Move.source then none else table.live? path := by
  unfold relocate
  rw [live?_foldl_insert_of_notMem _ moves h, live?_foldl_erase]

theorem live?_relocate_iff {table : Table} {moves : List Move} (h : table.Clear moves)
    {path : Path} {id : NodeId} :
    (table.relocate moves).live? path = some id ↔
      (∃ move ∈ moves, move.target = path ∧ move.id = id) ∨
        (table.live? path = some id ∧ ∀ move ∈ moves, move.source ≠ path) := by
  by_cases htarget : path ∈ moves.map Move.target
  · obtain ⟨move, member, rfl⟩ := List.mem_map.mp htarget
    rw [live?_relocate_target h member, h.free move member]
    constructor
    · intro heq
      exact Or.inl ⟨move, member, rfl, Option.some.inj heq⟩
    · rintro (⟨other, hother, hsame, rfl⟩ | ⟨hnone, -⟩)
      · rw [List.inj_on_of_nodup_map h.targets hother member hsame]
      · cases hnone
  · rw [live?_relocate_of_notMem htarget]
    have hno : ¬∃ move ∈ moves, move.target = path ∧ move.id = id := by
      rintro ⟨move, member, heq, -⟩
      exact htarget (List.mem_map.mpr ⟨move, member, heq⟩)
    by_cases hsource : path ∈ moves.map Move.source
    · obtain ⟨move, member, heq⟩ := List.mem_map.mp hsource
      rw [if_pos hsource]
      constructor
      · intro hnone
        cases hnone
      · rintro (hmoved | ⟨-, hall⟩)
        · exact absurd hmoved hno
        · exact absurd heq (hall move member)
    · rw [if_neg hsource]
      constructor
      · intro heq
        refine Or.inr ⟨heq, ?_⟩
        intro move member hsame
        exact hsource (List.mem_map.mpr ⟨move, member, hsame⟩)
      · rintro (hmoved | ⟨heq, -⟩)
        · exact absurd hmoved hno
        · exact heq

theorem live_foldl_erase (table : Table) (moves : List Move) :
    (moves.foldl (fun table move => table.erase move.source) table).live =
      table.live.filter fun entry => !(moves.map Move.source).contains entry.1 := by
  induction moves generalizing table with
  | nil => simp
  | cons move rest ih =>
      rw [List.foldl_cons, ih, live_erase, List.filter_filter]
      apply List.filter_congr
      intro entry _
      by_cases hsame : entry.1 = move.source <;> simp [hsame]

theorem Tidy.foldl_erase {table : Table} (h : table.Tidy) (moves : List Move) :
    (moves.foldl (fun table move => table.erase move.source) table).Tidy := by
  induction moves generalizing table with
  | nil => exact h
  | cons move rest ih => exact ih (h.erase move.source)

theorem Tidy.foldl_insert {table : Table} (h : table.Tidy) (moves : List Move) :
    (moves.foldl (fun table move => table.insert move.target (some move.id)) table).Tidy := by
  induction moves generalizing table with
  | nil => exact h
  | cons move rest ih => exact ih (h.insert move.target move.id)

theorem Tidy.live_foldl_insert {table : Table} (h : table.Tidy) {moves : List Move}
    (hnodup : (moves.map Move.target).Nodup)
    (hfree : ∀ move ∈ moves, table.live? move.target = none) :
    (moves.foldl (fun table move => table.insert move.target (some move.id)) table).live =
      table.live ++ moves.map fun move => (move.target, move.id) := by
  induction moves generalizing table with
  | nil => simp
  | cons move rest ih =>
      simp only [List.map_cons, List.nodup_cons] at hnodup
      have hrest : ∀ other ∈ rest,
          (table.insert move.target (some move.id)).live? other.target = none := by
        intro other member
        have hne : other.target ≠ move.target := by
          intro same
          exact hnodup.1 (List.mem_map.mpr ⟨other, member, same⟩)
        rw [live?_insert, if_neg hne]
        exact hfree other (by simp [member])
      rw [List.foldl_cons, ih (h.insert move.target move.id) hnodup.2 hrest,
        h.live_insert (hfree move (by simp))]
      simp

theorem Tidy.relocate {table : Table} (h : table.Tidy) (moves : List Move) :
    (table.relocate moves).Tidy :=
  (h.foldl_erase moves).foldl_insert moves

/-- In a tidy table the entries that stay keep their order, and those that are
moved follow in the order of the moves. -/
theorem Tidy.live_relocate {table : Table} (h : table.Tidy) {moves : List Move}
    (hclear : table.Clear moves) :
    (table.relocate moves).live =
      (table.live.filter fun entry => !(moves.map Move.source).contains entry.1) ++
        moves.map fun move => (move.target, move.id) := by
  unfold Table.relocate
  rw [(h.foldl_erase moves).live_foldl_insert hclear.targets, live_foldl_erase]
  intro move member
  rw [live?_foldl_erase]
  split
  · rfl
  · exact hclear.free move member

end Table

namespace Heap

theorem get_update (heap : Heap) (id other : NodeId) (change : Node → Node) :
    (heap.update id change).get other =
      if other = id then change (heap.get id) else heap.get other :=
  get_set heap id other _

theorem size_set (heap : Heap) (id : NodeId) (node : Node) :
    (heap.set id node).size = max heap.size (id.index + 1) := by
  simp only [set, size, List.length_set, List.length_append, List.length_replicate]
  omega

/-- The path that a node has after some moves: the target of its last one. -/
def pathAfter (moves : List Move) (id : NodeId) (path : Path) : Path :=
  moves.foldl (fun path move => if move.id = id then move.target else path) path

/-- A relocation changes paths and nothing else of a node. -/
theorem get_relocate (heap : Heap) (moves : List Move) (id : NodeId) :
    (heap.relocate moves).get id =
      { heap.get id with path := pathAfter moves id (heap.get id).path } := by
  induction moves generalizing heap with
  | nil => rfl
  | cons move rest ih =>
      have hsplit : heap.relocate (move :: rest) =
          (heap.update move.id fun node => { node with path := move.target }).relocate
            rest := rfl
      rw [hsplit, ih, get_update]
      by_cases hsame : id = move.id
      · subst id
        simp [pathAfter]
      · simp [pathAfter, hsame, Ne.symm hsame]

theorem size_le_relocate (heap : Heap) (moves : List Move) :
    heap.size ≤ (heap.relocate moves).size := by
  induction moves generalizing heap with
  | nil => exact Nat.le_refl _
  | cons move rest ih =>
      refine Nat.le_trans ?_ (ih (heap.update move.id fun node =>
        { node with path := move.target }))
      unfold update
      rw [size_set]
      omega

theorem size_relocate {heap : Heap} {moves : List Move}
    (h : ∀ move ∈ moves, move.id.index < heap.size) :
    (heap.relocate moves).size = heap.size := by
  induction moves generalizing heap with
  | nil => rfl
  | cons move rest ih =>
      have hstep : (heap.update move.id fun node =>
          { node with path := move.target }).size = heap.size := by
        unfold update
        rw [size_set]
        have := h move (by simp)
        omega
      have hsplit : heap.relocate (move :: rest) =
          (heap.update move.id fun node => { node with path := move.target }).relocate
            rest := rfl
      rw [hsplit, ih, hstep]
      intro other member
      rw [hstep]
      exact h other (by simp [member])

/-- A node that is moved ends with the target of one of its moves, and any other
node keeps its path. -/
theorem pathAfter_cases (moves : List Move) (id : NodeId) (path : Path) :
    (∃ last ∈ moves, last.id = id ∧ pathAfter moves id path = last.target) ∨
      ((∀ move ∈ moves, move.id ≠ id) ∧ pathAfter moves id path = path) := by
  induction moves generalizing path with
  | nil => exact Or.inr ⟨by simp, rfl⟩
  | cons move rest ih =>
      rcases ih (if move.id = id then move.target else path) with
        ⟨last, member, hid, hpath⟩ | ⟨hnone, hpath⟩
      · exact Or.inl ⟨last, by simp [member], hid, hpath⟩
      · by_cases hsame : move.id = id
        · refine Or.inl ⟨move, by simp, hsame, ?_⟩
          rw [if_pos hsame] at hpath
          simpa [pathAfter, hsame] using hpath
        · refine Or.inr ⟨?_, ?_⟩
          · intro other member
            rcases List.mem_cons.mp member with rfl | later
            · exact hsame
            · exact hnone other later
          · rw [if_neg hsame] at hpath
            simpa [pathAfter, hsame] using hpath

/-- A node that stands under no key but its path does so when entries are moved, for only
the move of that key gives it another path. -/
theorem path_relocate {table : Table} {heap : Heap} {moves : List Move} {id : NodeId}
    {key : Path} (hclear : table.Clear moves)
    (hown : ∀ key, table.live? key = some id → (heap.get id).path = key)
    (hlive : (table.relocate moves).live? key = some id) :
    ((heap.relocate moves).get id).path = key := by
  rw [get_relocate]
  rcases pathAfter_cases moves id (heap.get id).path with
    ⟨last, member, rfl, hpath⟩ | ⟨hunmoved, hpath⟩
  · have hlast := hown last.source (hclear.held last member)
    rcases (Table.live?_relocate_iff hclear).mp hlive with
      ⟨move, hmove, rfl, hid⟩ | ⟨hstay, hnone⟩
    · have hheld := hclear.held move hmove
      rw [hid] at hheld
      have hsame : move.source = last.source := (hown move.source hheld).symm.trans hlast
      rw [List.inj_on_of_nodup_map hclear.sources hmove member hsame]
      exact hpath
    · exact absurd (hlast.symm.trans (hown key hstay)) (hnone last member)
  · rcases (Table.live?_relocate_iff hclear).mp hlive with ⟨move, hmove, -, hid⟩ | ⟨hstay, -⟩
    · exact absurd hid (hunmoved move hmove)
    · exact hpath.trans (hown key hstay)

end Heap

namespace Volume

variable {volume : Volume} {id : NodeId} {isDirectory : Bool} {source target : Path}

/-- A move of a rename is that of the entry named, or for a directory that of an
entry below it. -/
theorem mem_moves {move : Move} :
    move ∈ volume.moves id isDirectory source target ↔
      move = ⟨id, source, target⟩ ∨
        (isDirectory = true ∧ move.source.Under source ∧
          volume.table.live? move.source = some move.id ∧
          move.target = move.source.rebase source target) := by
  obtain ⟨moved, from_, to_⟩ := move
  cases isDirectory with
  | false => simp [moves]
  | true =>
      simp only [moves, below, if_true, List.mem_cons, List.mem_map, List.mem_filter,
        decide_eq_true_eq, true_and, Move.mk.injEq]
      refine or_congr_right ?_
      constructor
      · rintro ⟨⟨path, held⟩, ⟨member, hunder⟩, rfl, rfl, rfl⟩
        exact ⟨hunder, Table.mem_live.mp member, rfl⟩
      · rintro ⟨hunder, hlive, rfl⟩
        exact ⟨(from_, moved), ⟨Table.mem_live.mpr hlive, hunder⟩, rfl, rfl, rfl⟩

/-- The moves of a rename whose targets are free are clear of the table. -/
theorem clear_moves (hlive : volume.table.live? source = some id)
    (hfree : ∀ move ∈ volume.moves id isDirectory source target,
      volume.table.live? move.target = none) :
    volume.table.Clear (volume.moves id isDirectory source target) where
  sources := by
    have hbelow : ((volume.below source).map Prod.fst).Nodup :=
      List.Nodup.sublist (List.filter_sublist.map Prod.fst) volume.table.nodup_live
    have hsource : source ∉ (volume.below source).map Prod.fst := by
      intro member
      obtain ⟨entry, hentry, hsame⟩ := List.mem_map.mp member
      have hunder := of_decide_eq_true (List.mem_filter.mp hentry).2
      exact Path.Under.ne hunder hsame
    cases isDirectory with
    | false => simp [moves]
    | true =>
        simp only [moves, if_true, List.map_cons, List.map_map, List.nodup_cons]
        exact ⟨hsource, hbelow⟩
  targets := by
    cases isDirectory with
    | false => simp [moves]
    | true =>
        simp only [moves, if_true, List.map_cons, List.map_map, List.nodup_cons]
        have hunder : ∀ entry ∈ volume.below source, entry.1.Under source :=
          fun entry member => of_decide_eq_true (List.mem_filter.mp member).2
        constructor
        · intro member
          obtain ⟨entry, hentry, hsame⟩ := List.mem_map.mp member
          exact Path.Under.ne (Path.under_rebase (hunder entry hentry) target) hsame
        · have hpaths : ((volume.below source).map Prod.fst).Nodup :=
            List.Nodup.sublist (List.filter_sublist.map Prod.fst) volume.table.nodup_live
          apply List.Nodup.map_on _ (List.Nodup.of_map _ hpaths)
          intro first hfirst second hsecond hsame
          have heq := Path.rebase_injective (hunder first hfirst) (hunder second hsecond) hsame
          exact List.inj_on_of_nodup_map hpaths hfirst hsecond heq
  held := by
    intro move member
    rcases mem_moves.mp member with rfl | ⟨-, -, hheld, -⟩
    · exact hlive
    · exact hheld
  free := hfree

end Volume

end FlatTree
