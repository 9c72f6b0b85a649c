import Mathlib.Data.List.Forall2
import FlatTree.Proofs.Abreast
import FlatTree.Proofs.Commons

/-!
Two states that are the same to one client. They are twins for its area when the
entries of the area stand under the same paths in the same order, with nodes that
correspond one to one and differ in their times of creation only. What stands
outside the area plays no part. A confined question is answered alike by twins:
it looks up paths of the area only, and parents and link targets lead to no
others.
-/

namespace FlatTree

/-- The live entries of an area, in table order. -/
def Volume.inside (volume : Volume) (area : Path) : List (Path × NodeId) :=
  volume.table.live.filter (·.1.Within area)

/-- Entries under one path with nodes that correspond. -/
def Alike (same : NodeId → NodeId → Prop) (entry twin : Path × NodeId) : Prop :=
  entry.1 = twin.1 ∧ same entry.2 twin.2

/-- States that are the same to the client of an area, up to a correspondence of
the nodes that it may know. -/
structure State.Twin (name : Segment) (same : NodeId → NodeId → Prop)
    (first second : State) : Prop where
  proper : Path.Proper name
  calm : first.volume.Calm
  calm' : second.volume.Calm
  settings : first.volume.settings = second.volume.settings
  entries : List.Forall₂ (Alike same) (first.volume.inside (Path.top name))
    (second.volume.inside (Path.top name))
  biunique : Relator.BiUnique same
  made : ∀ a b, same a b → a.index < first.heap.size ∧ b.index < second.heap.size
  nodes : ∀ a b, same a b → (first.heap.get a).timeless = (second.heap.get b).timeless
  inside : ∀ a b, same a b → (first.heap.get a).path.Within (Path.top name)
  target : ∀ a b, same a b → (first.heap.get a).isLink = true →
    (first.heap.get a).target.Under (Path.top name)

theorem Volume.mem_inside {volume : Volume} {area path : Path} {id : NodeId} :
    (path, id) ∈ volume.inside area ↔
      volume.table.live? path = some id ∧ path.Within area := by
  unfold Volume.inside
  rw [List.mem_filter, Table.mem_live, decide_eq_true_eq]

theorem exists_of_forall₂ {α β : Type} {relate : α → β → Prop} {first : List α}
    {second : List β} (h : List.Forall₂ relate first second) {a : α} (member : a ∈ first) :
    ∃ b ∈ second, relate a b := by
  induction h with
  | nil => cases member
  | cons hhead _ ih =>
      rcases List.mem_cons.mp member with rfl | later
      · exact ⟨_, List.mem_cons_self, hhead⟩
      · obtain ⟨b, hb, hrelate⟩ := ih later
        exact ⟨b, List.mem_cons_of_mem _ hb, hrelate⟩

namespace State.Twin

variable {name : Segment} {same : NodeId → NodeId → Prop} {first second : State}
  {path target : Path} {a b : NodeId} (h : Twin name same first second)

include h

theorem path_eq (hsame : same a b) :
    (first.heap.get a).path = (second.heap.get b).path := by
  have heq := congrArg Node.path (h.nodes a b hsame)
  exact heq

theorem isDirectory_eq (hsame : same a b) :
    (first.heap.get a).isDirectory = (second.heap.get b).isDirectory := by
  have heq := congrArg Node.isDirectory (h.nodes a b hsame)
  exact heq

theorem target_eq (hsame : same a b) :
    (first.heap.get a).target = (second.heap.get b).target := by
  have heq := congrArg Node.target (h.nodes a b hsame)
  exact heq

theorem isLink_eq (hsame : same a b) :
    (first.heap.get a).isLink = (second.heap.get b).isLink := by
  unfold Node.isLink
  rw [h.target_eq hsame]

/-- Under a path of the area both have a node or neither has. -/
theorem live? (hpath : path.Within (Path.top name)) :
    Option.Rel same (first.volume.live? path) (second.volume.live? path) := by
  have hroot := hpath.ne_root h.proper
  rw [Volume.live?_of_ne_root hroot, Volume.live?_of_ne_root hroot]
  cases hfirst : first.volume.table.live? path with
  | some a =>
      obtain ⟨⟨key, b⟩, member, hkey, hsame⟩ :=
        exists_of_forall₂ h.entries (Volume.mem_inside.mpr ⟨hfirst, hpath⟩)
      obtain rfl : path = key := hkey
      rw [(Volume.mem_inside.mp member).1]
      exact .some hsame
  | none =>
      cases hsecond : second.volume.table.live? path with
      | none => exact .none
      | some b =>
          obtain ⟨⟨key, a⟩, member, hkey, -⟩ :=
            exists_of_forall₂ h.entries.flip (Volume.mem_inside.mpr ⟨hsecond, hpath⟩)
          obtain rfl : key = path := hkey
          rw [(Volume.mem_inside.mp member).1] at hfirst
          cases hfirst

/-- Twins are abreast on the paths of the area. -/
theorem abreast : Abreast (·.Within (Path.top name)) same first second where
  settings := h.settings
  live := fun _ hpath => h.live? hpath
  target := fun _ _ hsame => h.target_eq hsame
  leads := fun a b hsame hlink => (h.target a b hsame hlink).within

/-- The parent of a path under the area is a directory in both or in neither. -/
theorem requireParent (hpath : path.Under (Path.top name)) :
    Parallel (fun _ _ => True) first second (Plan.requireParent path)
      (Plan.requireParent path) := by
  unfold Plan.requireParent
  refine Parallel.bind (h.abreast.resolve (hpath.parent_within h.proper)) ?_
  intro a b hsame
  apply Parallel.node_bind
  rw [h.isDirectory_eq hsame, h.path_eq hsame]
  split
  · exact Parallel.pure trivial
  · exact Parallel.refuse _

end State.Twin

end FlatTree
