import Mathlib.Data.List.Induction
import FlatTree.Proofs.Area

/-!
Parents of paths that are put together. A path is under its parent, unless the
parent is made of slashes. When the front of a path is exchanged, as a rename
does it, either the new parent is the old one with its front exchanged, or it
stands right at the new front: it is the front itself or, if the front ends in a
slash, the parent of the front.
-/

namespace FlatTree.Path

variable {path : Path}

/-- A run of slashes before a last segment belongs to neither the parent nor the
segment. -/
theorem parent_append_slashes (front base : Path) (last : Char) (hlast : last ≠ '/')
    (h : '/' ∉ base) (count : Nat) :
    (front ++ [last] ++ List.replicate (count + 1) '/' ++ base).parent = front ++ [last] := by
  have hsplit : front ++ [last] ++ List.replicate (count + 1) '/' ++ base =
      (front ++ [last] ++ List.replicate count '/') ++ '/' :: base := by
    simp [List.replicate_succ']
  unfold parent
  rw [hsplit, stem_append_slash _ _ h]
  simp [hlast]

/-- A path that is not slashes alone is text that ends in no slash, and slashes. -/
theorem split_slashes {c : Char} (member : c ∈ path) (hc : c ≠ '/') :
    ∃ front last count, last ≠ '/' ∧ path = front ++ [last] ++ List.replicate count '/' := by
  induction path using List.reverseRecOn with
  | nil => cases member
  | append_singleton text last ih =>
      by_cases hlast : last = '/'
      · subst hlast
        have hbefore : c ∈ text := by simpa [hc] using member
        obtain ⟨front, last, count, hlast, htext⟩ := ih hbefore
        refine ⟨front, last, count + 1, hlast, ?_⟩
        rw [List.replicate_succ', ← List.append_assoc, ← htext]
      · exact ⟨text, last, 0, hlast, by simp⟩

theorem Rooted.under_parent (h : path.parent.Rooted) : path.Under path.parent := by
  obtain ⟨c, rest, hc, hrooted⟩ := h
  rcases parent_cases path with ⟨count, hparent, -⟩ | ⟨count, hpath, -⟩
  · rw [hparent] at hrooted
    have member : c ∈ List.replicate count '/' := by simp [hrooted]
    exact absurd (List.eq_of_mem_replicate member) hc
  · refine under_iff.mpr ⟨List.replicate count '/' ++ path.base, ?_⟩
    simpa [List.replicate_succ] using hpath

/-- A path from the root has no second slash, so it does not continue the root with one. -/
theorem Rooted.not_under_root (h : path.Rooted) : ¬path.Under root := by
  obtain ⟨c, rest, hc, rfl⟩ := h
  intro hunder
  obtain ⟨more, hmore⟩ := under_iff.mp hunder
  simp [root, hc] at hmore

theorem Rooted.root_not_under (h : path.Rooted) : ¬root.Under path := by
  obtain ⟨c, rest, hc, rfl⟩ := h
  intro hunder
  obtain ⟨more, hmore⟩ := under_iff.mp hunder
  simp [root] at hmore

theorem Rooted.length_parent_lt (h : path.Rooted)
    (hparent : path.parent = root ∨ path.parent.Rooted) :
    path.parent.length < path.length := by
  rcases hparent with hroot | hrooted
  · obtain ⟨c, rest, -, rfl⟩ := h
    simp [hroot, root]
  · obtain ⟨rest, hrest⟩ := under_iff.mp hrooted.under_parent
    have hlength := congrArg List.length hrest
    simp only [List.length_append, List.length_cons] at hlength
    omega

/-- What continues a front with a slash either holds the parent, and the same text of it
whatever the front is, or is slashes and a last segment. -/
theorem continuation_cases (rest : Path) :
    (∃ part, ∀ front : Path, (front ++ '/' :: rest).parent = front ++ '/' :: part) ∨
      ∃ count segment, '/' ∉ segment ∧
        '/' :: rest = List.replicate (count + 1) '/' ++ segment := by
  have hbase := slash_not_mem_base ('/' :: rest)
  have hcases := parent_cases ('/' :: rest)
  generalize base ('/' :: rest) = segment at hbase hcases
  rcases hcases with ⟨count, -, hpath⟩ | ⟨count, hpath, text, last, hparent, hlast⟩
  · right
    have hcount : count ≠ 0 := by
      rintro rfl
      rw [List.replicate_zero, List.nil_append] at hpath
      exact hbase (by simp [← hpath])
    obtain ⟨count, rfl⟩ := Nat.exists_eq_succ_of_ne_zero hcount
    exact ⟨count, segment, hbase, hpath⟩
  · left
    rw [hparent] at hpath
    obtain ⟨part, hpart⟩ : ∃ part, text ++ [last] = '/' :: part := by
      cases text with
      | nil => exact absurd (List.cons.inj hpath).1.symm hlast
      | cons c text =>
          rw [(List.cons.inj hpath).1]
          exact ⟨text ++ [last], rfl⟩
    refine ⟨part, fun front => ?_⟩
    have hwhole := parent_append_slashes (front ++ text) segment last hlast hbase count
    rw [hpath, ← hpart]
    simpa using hwhole

/-- Where the parent of a path stands when the front of the path is exchanged. -/
theorem parent_append_cases (rest : Path) :
    (∃ part, ∀ front : Path, (front ++ '/' :: rest).parent = front ++ '/' :: part) ∨
      ∀ front : Path, front.Rooted →
        (front ++ '/' :: rest).parent = front ∨
          (front ++ '/' :: rest).parent = front.parent := by
  rcases continuation_cases rest with hpart | ⟨count, segment, hsegment, hrest⟩
  · exact Or.inl hpart
  · right
    rintro front ⟨c, more, hc, hfront⟩
    have member : c ∈ front := by simp [hfront]
    obtain ⟨text, last, slashes, hlast, rfl⟩ := split_slashes member hc
    rw [hrest, ← List.append_assoc, List.append_assoc (text ++ [last]),
      List.replicate_append_replicate, Nat.add_succ, parent_append_slashes _ _ _ hlast hsegment]
    cases slashes with
    | zero => exact Or.inl (by simp)
    | succ slashes =>
        have hfront := parent_append_slashes text [] last hlast List.not_mem_nil slashes
        rw [List.append_nil] at hfront
        exact Or.inr hfront.symm

/-- The same for fronts that do not end in a slash. -/
theorem parent_continuation (rest : Path) :
    (∃ part, ∀ front : Path, (front ++ '/' :: rest).parent = front ++ '/' :: part) ∨
      ∀ front : Path, front ≠ [] → front.getLast? ≠ some '/' →
        (front ++ '/' :: rest).parent = front := by
  rcases continuation_cases rest with hpart | ⟨count, segment, hsegment, hrest⟩
  · exact Or.inl hpart
  · right
    intro front hne hlast
    rw [List.getLast?_eq_some_getLast hne, ne_eq, Option.some.injEq] at hlast
    rw [hrest, ← List.dropLast_concat_getLast hne, ← List.append_assoc]
    exact parent_append_slashes _ _ _ hlast hsegment count

end FlatTree.Path
