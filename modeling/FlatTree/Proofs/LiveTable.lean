import FlatTree.Move

/-!
The live entries of a table under the changes that commands make. A stale path
shows in no look-up, and leaving the stale paths out (`Table.tidy`) changes no
answer. In a table without stale paths a new entry goes last and a removed one
leaves no trace, so the live entries follow the changes as plain list
operations do.
-/

namespace FlatTree

namespace Table

/-- The table without its stale paths. -/
def tidy (table : Table) : Table :=
  ⟨table.entries.filter (·.2.isSome),
    table.nodup.sublist (List.filter_sublist.map _)⟩

/-- No path of the table is stale. -/
def Tidy (table : Table) : Prop :=
  ∀ entry ∈ table.entries, entry.2.isSome = true

@[simp] theorem live_tidy (table : Table) : table.tidy.live = table.live := by
  simp only [live, tidy, List.filterMap_filter]
  congr 1
  funext entry
  cases entry.2 <;> simp

theorem live?_congr {table other : Table} (h : table.live = other.live) :
    table.live? = other.live? := by
  funext path
  apply Option.ext
  intro id
  rw [← mem_live, ← mem_live, h]

@[simp] theorem live?_tidy (table : Table) : table.tidy.live? = table.live? :=
  live?_congr (live_tidy table)

theorem entries_tidy (table : Table) :
    table.tidy.entries = table.live.map fun entry => (entry.1, some entry.2) := by
  simp only [tidy, live, List.map_filterMap]
  rw [← List.filterMap_eq_filter]
  congr 1
  funext entry
  obtain ⟨path, value⟩ := entry
  cases value <;> simp [Option.guard]

/-- The live entries are all that is left of a table without its stale paths. -/
theorem tidy_congr {table other : Table} (h : table.live = other.live) :
    table.tidy = other.tidy := by
  have heq : table.tidy.entries = other.tidy.entries := by
    rw [entries_tidy, entries_tidy, h]
  cases htable : table.tidy
  cases hother : other.tidy
  simp only [htable, hother] at heq
  simp [heq]

theorem live?_eq_none {table : Table} {path : Path} :
    table.live? path = none ↔ ∀ id, (path, id) ∉ table.live := by
  simp [mem_live, Option.eq_none_iff_forall_ne_some]

theorem find?_of_live? {table : Table} {path : Path} {id : NodeId}
    (h : table.live? path = some id) : table.find? path = some (some id) := by
  unfold live? at h
  exact Option.join_eq_some_iff.mp h

/-- A path stands in a table with one value only. -/
theorem find?_of_mem {table : Table} {path : Path} {value : Option NodeId}
    (h : (path, value) ∈ table.entries) : table.find? path = some value := by
  obtain ⟨entries, nodup⟩ := table
  simp only [find?] at h ⊢
  induction entries with
  | nil => cases h
  | cons entry rest ih =>
      simp only [List.map_cons, List.nodup_cons] at nodup
      rcases List.mem_cons.mp h with rfl | later
      · simp
      · have hne : entry.1 ≠ path := by
          intro same
          exact nodup.1 (List.mem_map.mpr ⟨_, later, same.symm⟩)
        simpa [hne] using ih nodup.2 later

theorem live?_insert (table : Table) (path other : Path) (id : NodeId) :
    (table.insert path (some id)).live? other =
      if other = path then some id else table.live? other := by
  unfold live?
  rw [find?_insert]
  split <;> rfl

theorem live?_erase (table : Table) (path other : Path) :
    (table.erase path).live? other =
      if other = path then none else table.live? other := by
  unfold live?
  rw [find?_erase]
  split <;> rfl

theorem live_erase (table : Table) (path : Path) :
    (table.erase path).live = table.live.filter (·.1 != path) := by
  simp only [live, erase, List.filterMap_filter, List.filter_filterMap]
  congr 1
  funext entry
  cases entry.2 <;> by_cases hpath : entry.1 = path <;>
    simp [hpath, Option.filter]

/-- Taking out a path without a node changes no live entry. -/
theorem live_erase_of_live?_eq_none {table : Table} {path : Path}
    (h : table.live? path = none) : (table.erase path).live = table.live := by
  rw [live_erase, List.filter_eq_self]
  intro entry member
  simp only [bne_iff_ne, ne_eq]
  intro same
  exact live?_eq_none.mp h entry.2 (same ▸ member)

/-- The live paths stand in the order of the table. -/
theorem live_sublist (table : Table) :
    (table.live.map Prod.fst).Sublist table.paths := by
  obtain ⟨entries, nodup⟩ := table
  simp only [live, paths]
  clear nodup
  induction entries with
  | nil => simp
  | cons entry rest ih =>
      cases hvalue : entry.2 with
      | none => simpa [List.filterMap_cons, hvalue] using ih.cons entry.1
      | some id => simpa [List.filterMap_cons, hvalue] using ih

theorem nodup_live (table : Table) : (table.live.map Prod.fst).Nodup :=
  List.Nodup.sublist (live_sublist table) table.nodup

theorem tidy_empty : empty.Tidy := by
  intro entry member
  cases member

theorem Tidy.tidy_eq {table : Table} (h : table.Tidy) : table.tidy = table := by
  obtain ⟨entries, nodup⟩ := table
  simp only [tidy, Table.mk.injEq, List.filter_eq_self]
  exact h

/-- In a tidy table a path is absent or has a node. -/
theorem Tidy.find?_eq {table : Table} (h : table.Tidy) (path : Path) :
    table.find? path = (table.live? path).map some := by
  unfold live? find?
  cases hfind : table.entries.find? (·.1 == path) with
  | none => rfl
  | some entry =>
      have hsome := h entry (List.mem_of_find?_eq_some hfind)
      obtain ⟨id, hid⟩ := Option.isSome_iff_exists.mp hsome
      simp [hid]

theorem Tidy.erase {table : Table} (h : table.Tidy) (path : Path) :
    (table.erase path).Tidy := by
  intro entry member
  exact h entry (List.mem_filter.mp member).1

theorem erase_of_find?_eq_none {table : Table} {path : Path}
    (h : table.find? path = none) : table.erase path = table := by
  obtain ⟨entries, nodup⟩ := table
  simp only [erase, Table.mk.injEq, List.filter_eq_self]
  intro entry member
  simp only [find?, Option.map_eq_none_iff, List.find?_eq_none] at h
  simpa using h entry member

/-- In a tidy table nothing happens when a path without a node is taken out. -/
theorem Tidy.erase_eq {table : Table} (h : table.Tidy) {path : Path}
    (hnone : table.live? path = none) : table.erase path = table := by
  apply erase_of_find?_eq_none
  rw [h.find?_eq, hnone]
  rfl

theorem place_of_absent {path : Path} {value : Option NodeId}
    {entries : List (Path × Option NodeId)}
    (h : ∀ entry ∈ entries, entry.1 ≠ path) :
    place path value entries = entries ++ [(path, value)] := by
  induction entries with
  | nil => rfl
  | cons entry rest ih =>
      have hhead := h entry (by simp)
      have htail := ih fun other member => h other (by simp [member])
      simp [place, hhead, htail]

/-- A path that is not in the table goes last. -/
theorem entries_insert_of_find?_eq_none {table : Table} {path : Path}
    (h : table.find? path = none) (value : Option NodeId) :
    (table.insert path value).entries = table.entries ++ [(path, value)] := by
  apply place_of_absent
  intro entry member
  simp only [find?, Option.map_eq_none_iff, List.find?_eq_none] at h
  simpa using h entry member

theorem Tidy.live_insert {table : Table} (h : table.Tidy) {path : Path}
    (hnone : table.live? path = none) (id : NodeId) :
    (table.insert path (some id)).live = table.live ++ [(path, id)] := by
  have habsent : table.find? path = none := by
    rw [h.find?_eq, hnone]
    rfl
  simp [live, entries_insert_of_find?_eq_none habsent]

theorem Tidy.insert {table : Table} (h : table.Tidy) (path : Path) (id : NodeId) :
    (table.insert path (some id)).Tidy := by
  have hplace : ∀ entries : List (Path × Option NodeId),
      (∀ entry ∈ entries, entry.2.isSome = true) →
        ∀ entry ∈ place path (some id) entries, entry.2.isSome = true := by
    intro entries
    induction entries with
    | nil => simp [place]
    | cons first rest ih =>
        intro hall entry member
        simp only [place] at member
        split at member
        · rcases List.mem_cons.mp member with rfl | later
          · rfl
          · exact hall entry (by simp [later])
        · rcases List.mem_cons.mp member with rfl | later
          · exact hall _ (by simp)
          · exact ih (fun other inner => hall other (by simp [inner])) entry later
  exact hplace table.entries h

end Table

end FlatTree
