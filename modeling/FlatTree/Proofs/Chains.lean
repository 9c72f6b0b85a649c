import Mathlib.Data.List.Nodup
import Mathlib.Data.List.Perm.Subperm
import FlatTree.Proofs.Query

/-!
Chains of symbolic links. A search that comes to an end visits no path twice, for
from a path visited again it would go round for ever. So it needs no more hops
than there are paths with a node, and hops beyond that change nothing: a search
without a bound ends just when a search with any number of hops does.
-/

namespace FlatTree.Volume

variable {volume : Volume} {heap : Heap} {hops more : Nat} {path other : Path}

/-- More hops change nothing for a search that has ended. -/
theorem search_of_le (h : (volume.search heap hops path).resolution ≠ .stopped)
    (hle : hops ≤ more) : volume.search heap more path = volume.search heap hops path := by
  revert more h
  refine volume.search_induction heap (motive := fun hops path search =>
    ∀ {more}, search.resolution ≠ .stopped → hops ≤ more →
      volume.search heap more path = search) ?_ ?_ ?_ ?_ hops path
  · intro _ path hnone more _ _
    exact search_of_absent heap more hnone
  · intro _ path id hlive hlink more _ _
    exact search_of_not_isLink more hlive hlink
  · intro path id _ _ more h _
    exact absurd rfl h
  · intro hops path id hlive hlink ih more h hle
    obtain ⟨more, rfl⟩ : ∃ less, more = less + 1 := ⟨more - 1, by omega⟩
    rw [search_succ_of_isLink more hlive hlink, ih h (by omega)]

/-- Two searches from one path that both end are the same search. -/
theorem search_eq_of_ended (h : (volume.search heap hops path).resolution ≠ .stopped)
    (h' : (volume.search heap more path).resolution ≠ .stopped) :
    volume.search heap hops path = volume.search heap more path := by
  rcases Nat.le_total hops more with hle | hle
  · exact (search_of_le h hle).symm
  · exact search_of_le h' hle

/-- From each path that it visits, a search that ends goes on as the search from
that path. -/
theorem search_of_mem_trail (h : (volume.search heap hops path).resolution ≠ .stopped)
    (member : other ∈ (volume.search heap hops path).trail) :
    ∃ rest, (volume.search heap rest other).resolution ≠ .stopped ∧
      (volume.search heap rest other).trail.length ≤
        (volume.search heap hops path).trail.length := by
  revert h member
  refine volume.search_induction heap (motive := fun _ _ search =>
    search.resolution ≠ .stopped → other ∈ search.trail →
      ∃ rest, (volume.search heap rest other).resolution ≠ .stopped ∧
        (volume.search heap rest other).trail.length ≤ search.trail.length)
    ?_ ?_ ?_ ?_ hops path
  · intro hops path hnone h member
    rw [List.mem_singleton.mp member]
    refine ⟨hops, ?_⟩
    rw [search_of_absent heap hops hnone]
    exact ⟨h, Nat.le_refl _⟩
  · intro hops path id hlive hlink h member
    rw [List.mem_singleton.mp member]
    refine ⟨hops, ?_⟩
    rw [search_of_not_isLink hops hlive hlink]
    exact ⟨h, Nat.le_refl _⟩
  · intro path id _ _ h _
    exact absurd rfl h
  · intro hops path id hlive hlink ih h member
    rcases List.mem_cons.mp member with rfl | later
    · refine ⟨hops + 1, ?_⟩
      rw [search_succ_of_isLink hops hlive hlink]
      exact ⟨h, Nat.le_refl _⟩
    · obtain ⟨rest, hrest, hlength⟩ := ih h later
      exact ⟨rest, hrest, Nat.le_succ_of_le hlength⟩

/-- A search that ends visits no path twice. -/
theorem nodup_trail (h : (volume.search heap hops path).resolution ≠ .stopped) :
    (volume.search heap hops path).trail.Nodup := by
  revert h
  refine volume.search_induction heap (motive := fun _ _ search =>
    search.resolution ≠ .stopped → search.trail.Nodup) ?_ ?_ ?_ ?_ hops path
  · intro _ path _ _
    exact List.nodup_singleton path
  · intro _ path _ _ _ _
    exact List.nodup_singleton path
  · intro path _ _ _ _
    exact List.nodup_singleton path
  · intro hops path id hlive hlink ih h
    refine List.nodup_cons.mpr ⟨?_, ih h⟩
    intro member
    -- The path is met again later, so its own search would be longer than itself.
    obtain ⟨rest, hrest, hlength⟩ := search_of_mem_trail h member
    have hsucc := search_succ_of_isLink hops hlive hlink
    have hwhole : (volume.search heap (hops + 1) path).resolution ≠ .stopped := by
      rw [hsucc]
      exact h
    rw [search_eq_of_ended hrest hwhole, hsucc, List.length_cons] at hlength
    omega

theorem length_trail_pos (volume : Volume) (heap : Heap) (hops : Nat) (path : Path) :
    0 < (volume.search heap hops path).trail.length := by
  refine volume.search_induction heap
    (motive := fun _ _ search => 0 < search.trail.length) ?_ ?_ ?_ ?_ hops path
  · intros
    exact Nat.one_pos
  · intros
    exact Nat.one_pos
  · intros
    exact Nat.one_pos
  · intros
    exact Nat.succ_pos _

/-- A search that ends makes as many hops as it visits paths past the first. -/
theorem search_of_length_le (h : (volume.search heap hops path).resolution ≠ .stopped)
    (hlength : (volume.search heap hops path).trail.length ≤ more + 1) :
    volume.search heap more path = volume.search heap hops path := by
  revert more h
  refine volume.search_induction heap (motive := fun _ path search =>
    ∀ {more}, search.resolution ≠ .stopped → search.trail.length ≤ more + 1 →
      volume.search heap more path = search) ?_ ?_ ?_ ?_ hops path
  · intro _ path hnone more _ _
    exact search_of_absent heap more hnone
  · intro _ path id hlive hlink more _ _
    exact search_of_not_isLink more hlive hlink
  · intro path id _ _ more h _
    exact absurd rfl h
  · intro hops path id hlive hlink ih more h hlength
    rw [List.length_cons] at hlength
    have hsome := volume.length_trail_pos heap hops (heap.get id).target
    obtain ⟨less, rfl⟩ : ∃ less, more = less + 1 := ⟨more - 1, by omega⟩
    rw [search_succ_of_isLink less hlive hlink, ih h (by omega)]

/-- Different paths that all have a node are no more than the entries and the root. -/
theorem length_le_of_live {paths : List Path} (hnodup : paths.Nodup)
    (hlive : ∀ path ∈ paths, (volume.live? path).isSome = true) :
    paths.length ≤ volume.enoughHops := by
  have hsubset : paths ⊆ Path.root :: volume.table.live.map Prod.fst := by
    intro path member
    by_cases hroot : path = Path.root
    · exact List.mem_cons.mpr (Or.inl hroot)
    · obtain ⟨id, hid⟩ := Option.isSome_iff_exists.mp (hlive path member)
      unfold live? at hid
      rw [if_neg hroot] at hid
      refine List.mem_cons_of_mem _ (List.mem_map.mpr ⟨(path, id), ?_, rfl⟩)
      exact Table.mem_live.mpr hid
  have hlength := (hnodup.subperm hsubset).length_le
  simpa [enoughHops] using hlength

/-- As many hops as there are paths with a node are enough for every search that
ends at all. -/
theorem search_enoughHops (h : (volume.search heap hops path).resolution ≠ .stopped) :
    volume.search heap volume.enoughHops path = volume.search heap hops path := by
  apply search_of_length_le h
  have hnodup := nodup_trail h
  have htrail := volume.search_trail heap hops path
  cases hend : (volume.search heap hops path).resolution with
  | stopped => exact absurd hend h
  | found id =>
      simp only [hend] at htrail
      exact Nat.le_succ_of_le (length_le_of_live hnodup htrail)
  | missing stop =>
      simp only [hend] at htrail
      obtain ⟨-, before, hsplit, hbefore⟩ := htrail
      rw [hsplit] at hnodup ⊢
      have hlength := length_le_of_live (hnodup.sublist (List.sublist_append_left _ _)) hbefore
      simp only [List.length_append, List.length_singleton]
      omega

/-- With more hops than that a search ends as it does with them. -/
theorem resolution_enoughHops (hle : volume.enoughHops ≤ hops) :
    (volume.search heap volume.enoughHops path).resolution =
      (volume.search heap hops path).resolution := by
  by_cases hend : (volume.search heap hops path).resolution = .stopped
  · by_contra hother
    have hended : (volume.search heap volume.enoughHops path).resolution ≠ .stopped := by
      rwa [hend] at hother
    exact hother (congrArg Search.resolution (search_of_le hended hle)).symm
  · rw [search_enoughHops hend]

/-- A look-up ends as a search that ends within the bound. -/
theorem resolve_eq_search (h : (volume.search heap hops path).resolution ≠ .stopped)
    (hbound : ∀ limit, volume.settings.hopBound = some limit → hops ≤ limit) :
    volume.resolve heap path = volume.search heap hops path := by
  unfold resolve
  cases hlimit : volume.settings.hopBound with
  | none => exact search_enoughHops h
  | some limit => exact search_of_le h (hbound limit hlimit)

end FlatTree.Volume
