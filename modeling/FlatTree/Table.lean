import FlatTree.Heap

/-!
The table of a store: paths in the order in which they were first put in, each with a node or with
nothing. A path with nothing is stale; for every look-up it is as good as absent, but it keeps its
place until it is taken out. No path stands in a table twice.
-/

namespace FlatTree

structure Table where
  entries : List (Path × Option NodeId)
  nodup : (entries.map Prod.fst).Nodup
  deriving DecidableEq

namespace Table

def empty : Table := ⟨[], List.nodup_nil⟩

/-- All paths of the table, the stale ones too, in table order. -/
def paths (table : Table) : List Path := table.entries.map Prod.fst

/-- What stands under a path: `none` if the path is absent, `some none` if it is stale. -/
def find? (table : Table) (path : Path) : Option (Option NodeId) :=
  (table.entries.find? (·.1 == path)).map Prod.snd

/-- The node under a path that is present and not stale. -/
def live? (table : Table) (path : Path) : Option NodeId :=
  (table.find? path).join

/-- The paths that have a node, with their nodes, in table order. -/
def live (table : Table) : List (Path × NodeId) :=
  table.entries.filterMap fun (path, value) => value.map (path, ·)

/-- Exchanges what stands under a path, or puts the path at the end. -/
def place (path : Path) (value : Option NodeId) :
    List (Path × Option NodeId) → List (Path × Option NodeId)
  | [] => [(path, value)]
  | (key, old) :: rest =>
      if key = path then (path, value) :: rest else (key, old) :: place path value rest

theorem mem_map_place {path key : Path} {value : Option NodeId}
    {entries : List (Path × Option NodeId)} :
    key ∈ (place path value entries).map Prod.fst ↔ key = path ∨ key ∈ entries.map Prod.fst := by
  induction entries with
  | nil => simp [place]
  | cons entry rest ih =>
      obtain ⟨first, old⟩ := entry
      simp only [place]
      split
      · subst first
        simp
      · simp only [List.map_cons, List.mem_cons, ih]
        grind

theorem nodup_place {path : Path} {value : Option NodeId} {entries : List (Path × Option NodeId)}
    (nodup : (entries.map Prod.fst).Nodup) : ((place path value entries).map Prod.fst).Nodup := by
  induction entries with
  | nil => simp [place]
  | cons entry rest ih =>
      obtain ⟨first, old⟩ := entry
      simp only [List.map_cons, List.nodup_cons] at nodup
      simp only [place]
      split
      · subst first
        simpa using nodup
      · simp only [List.map_cons, List.nodup_cons, mem_map_place]
        exact ⟨by grind, ih nodup.2⟩

/-- Puts a value under a path. A path that is present, stale or not, keeps its place; a new one goes
last. -/
def insert (table : Table) (path : Path) (value : Option NodeId) : Table :=
  ⟨place path value table.entries, nodup_place table.nodup⟩

/-- Takes a path out, stale or not. -/
def erase (table : Table) (path : Path) : Table :=
  ⟨table.entries.filter (·.1 != path), table.nodup.sublist (List.filter_sublist.map _)⟩

@[simp] theorem find?_empty (path : Path) : empty.find? path = none := rfl

/-- After putting a value under a path, that path has it and the others are as before. -/
theorem find?_insert (table : Table) (path other : Path) (value : Option NodeId) :
    (table.insert path value).find? other =
      if other = path then some value else table.find? other := by
  obtain ⟨entries, nodup⟩ := table
  simp only [find?, insert]
  clear nodup
  induction entries with
  | nil =>
      by_cases same : other = path
      · simp [place, same]
      · simp [place, same, Ne.symm same]
  | cons entry rest ih =>
      obtain ⟨first, old⟩ := entry
      simp only [place]
      by_cases here : first = path
      · subst first
        by_cases same : other = path
        · simp [same]
        · simp [same, Ne.symm same]
      · by_cases found : first = other
        · subst first
          simp [here]
        · simpa [here, found] using ih

/-- After taking a path out, that path is absent and the others are as before. -/
theorem find?_erase (table : Table) (path other : Path) :
    (table.erase path).find? other = if other = path then none else table.find? other := by
  obtain ⟨entries, nodup⟩ := table
  simp only [find?, erase]
  clear nodup
  induction entries with
  | nil => simp
  | cons entry rest ih =>
      obtain ⟨first, old⟩ := entry
      by_cases here : first = path
      · subst first
        by_cases same : other = path
        · simp [same]
        · simpa [same, Ne.symm same] using ih
      · by_cases found : first = other
        · subst first
          simp [here]
        · simpa [here, found] using ih

/-- The live entries are those that a look-up finds. -/
theorem mem_live {table : Table} {path : Path} {id : NodeId} :
    (path, id) ∈ table.live ↔ table.live? path = some id := by
  obtain ⟨entries, nodup⟩ := table
  simp only [live, live?, find?]
  induction entries with
  | nil => simp
  | cons entry rest ih =>
      obtain ⟨first, value⟩ := entry
      simp only [List.map_cons, List.nodup_cons] at nodup
      have later := ih nodup.2
      by_cases here : first = path
      · subst first
        have absent : ∀ other, (path, some other) ∉ rest := fun other member =>
          nodup.1 (List.mem_map.2 ⟨_, member, rfl⟩)
        cases value <;> simp [List.mem_filterMap] <;> grind
      · have apart : path ≠ first := Ne.symm here
        cases value <;> simp_all

end Table

end FlatTree
