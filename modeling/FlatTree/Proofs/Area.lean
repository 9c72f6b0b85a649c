import FlatTree.Proofs.Segments

/-!
Areas: a directory right below the root and everything under it. The texts that
the flat tree derives from a path of an area, its parent and what a rename makes
of it, stay in the area; a path whose parent is in an area is in it as well; and
no path is in two areas, because a segment holds no slash.
-/

namespace FlatTree.Path

/-- The path of a directory right below the root. -/
def top (name : Segment) : Path := '/' :: name

/-- The path of an area or one under it. -/
def Within (path area : Path) : Prop := path = area ∨ path.Under area

instance (path area : Path) : Decidable (path.Within area) :=
  inferInstanceAs (Decidable (path = area ∨ path.Under area))

variable {path other area : Path} {name another : Segment}

theorem within_self (area : Path) : area.Within area := Or.inl rfl

theorem Under.within (h : path.Under area) : path.Within area := Or.inr h

theorem Under.trans_within (h : path.Under other) (h' : other.Within area) :
    path.Under area := by
  rcases h' with rfl | hunder
  · exact h
  · obtain ⟨rest, rfl⟩ := under_iff.mp h
    obtain ⟨more, rfl⟩ := under_iff.mp hunder
    exact under_iff.mpr ⟨more ++ '/' :: rest, by simp⟩

/-- What a rename makes of a path goes where the rename goes. -/
theorem rebase_under {source target : Path} (h : path.Under source)
    (htarget : target.Within area) : (path.rebase source target).Under area :=
  (under_rebase h target).trans_within htarget

theorem top_ne_root (h : Proper name) : top name ≠ root := by
  intro hsame
  exact h.1 (List.cons.inj hsame).2

theorem Within.ne_root (h : path.Within (top name)) (hname : Proper name) :
    path ≠ root := by
  rcases h with rfl | hunder
  · exact top_ne_root hname
  · obtain ⟨rest, rfl⟩ := under_iff.mp hunder
    intro hsame
    have hlength := congrArg List.length hsame
    simp [top, root] at hlength

/-- The parent of a path under an area is in the area. -/
theorem Under.parent_within (h : path.Under (top name)) (hname : Proper name) :
    path.parent.Within (top name) := by
  obtain ⟨hname, hslash⟩ := hname
  obtain ⟨rest, hpath⟩ := under_iff.mp h
  rcases parent_cases path with ⟨count, -, hsplit⟩ | ⟨count, hsplit, front, last, hparent, -⟩
  · -- The path has a slash after its first segment, so it is no run of slashes and a base.
    exfalso
    obtain ⟨c, more, rfl⟩ := List.exists_cons_of_ne_nil hname
    have hbase := slash_not_mem_base path
    rw [hpath] at hsplit
    rcases count with _ | _ | count
    · rw [List.replicate_zero, List.nil_append] at hsplit
      rw [hpath] at hbase
      rw [← hsplit] at hbase
      exact hbase (by simp [top])
    · simp only [top, List.replicate_succ, List.replicate_zero, List.cons_append,
        List.nil_append, List.cons.injEq, true_and, Nat.zero_add] at hsplit
      rw [hpath] at hbase
      simp only [top, List.cons_append] at hbase
      rw [← hsplit] at hbase
      exact hbase (by simp)
    · simp only [top, List.replicate_succ, List.cons_append, List.cons.injEq,
        true_and] at hsplit
      exact hslash (List.mem_cons.mpr (Or.inl hsplit.1.symm))
  · have hboth : top name ++ '/' :: rest =
        path.parent ++ (List.replicate (count + 1) '/' ++ path.base) := by
      rw [← hpath, ← List.append_assoc]
      exact hsplit
    rcases List.append_eq_append_iff.mp hboth with ⟨between, hlong, hrest⟩ |
        ⟨between, hlong, hrest⟩
    · cases between with
      | nil => exact Or.inl (by simpa using hlong)
      | cons c more =>
          have hc : '/' = c := (List.cons.inj hrest).1
          exact Or.inr (under_iff.mpr ⟨more, by rw [hlong, ← hc]⟩)
    · cases between with
      | nil => exact Or.inl (by simpa using hlong.symm)
      | cons c more =>
          exfalso
          have hc : '/' = c := by
            rw [List.replicate_succ, List.cons_append] at hrest
            exact (List.cons.inj hrest).1
          obtain ⟨first, others, hfront⟩ : ∃ first others, path.parent = first :: others := by
            cases front with
            | nil => exact ⟨last, [], hparent⟩
            | cons first front => exact ⟨first, front ++ [last], hparent⟩
          rw [hfront] at hlong
          have htail := (List.cons.inj hlong).2
          exact hslash (by rw [htail, ← hc]; simp)

/-- A path whose parent is in an area is under the area. -/
theorem under_of_parent_within (h : path.parent.Within (top name))
    (hname : Proper name) : path.Under (top name) := by
  obtain ⟨hname, hslash⟩ := hname
  rcases parent_cases path with ⟨count, hparent, -⟩ | ⟨count, hsplit, -⟩
  · exfalso
    obtain ⟨c, more, rfl⟩ := List.exists_cons_of_ne_nil hname
    have member : c ∈ List.replicate count '/' := by
      rw [← hparent]
      rcases h with hsame | hunder
      · rw [hsame]
        simp [top]
      · obtain ⟨rest, hrest⟩ := under_iff.mp hunder
        rw [hrest]
        simp [top]
    rw [List.eq_of_mem_replicate member] at hslash
    exact hslash (by simp)
  · apply Under.trans_within _ h
    refine under_iff.mpr ⟨List.replicate count '/' ++ path.base, ?_⟩
    rw [List.replicate_succ, List.append_assoc, List.cons_append] at hsplit
    exact hsplit

/-- No path is in two areas. -/
theorem Within.unique (h : path.Within (top name)) (h' : path.Within (top another))
    (hname : Proper name) (hanother : Proper another) : name = another := by
  have hlong : ∀ {first second : List Char} {rest : Path}, '/' ∉ first →
      first ≠ second ++ '/' :: rest := by
    rintro first second rest hfirst rfl
    exact hfirst (by simp)
  rcases h with rfl | hunder
  · rcases h' with hsame | hunder'
    · exact (List.cons.inj hsame).2
    · obtain ⟨rest, hrest⟩ := under_iff.mp hunder'
      exact absurd (List.cons.inj hrest).2 (hlong hname.2)
  · obtain ⟨rest, hrest⟩ := under_iff.mp hunder
    rcases h' with rfl | hunder'
    · exact absurd (List.cons.inj hrest).2 (hlong hanother.2)
    · obtain ⟨more, hmore⟩ := under_iff.mp hunder'
      rw [hrest] at hmore
      have htails : name ++ '/' :: rest = another ++ '/' :: more := (List.cons.inj hmore).2
      exact (append_slash_inj hname.2 hanother.2 htails).1

end FlatTree.Path
