import FlatTree.Proofs.Chains
import FlatTree.Proofs.Matches
import FlatTree.Proofs.Representation

/-!
Two states that are asked the same questions. They are abreast on some paths when those
paths have nodes that correspond, and links that correspond point to one such path
(`State.Abreast`). Then looking up and following links come to the same ends on both; what
else a question reads is left to those who know more of the two states.
-/

namespace FlatTree

/-- Searches that end at corresponding nodes, at one missing path, or stopped. -/
inductive Resolution.Alike (same : NodeId → NodeId → Prop) : Resolution → Resolution → Prop
  | found {a b} (h : same a b) : Alike same (.found a) (.found b)
  | missing (stop) : Alike same (.missing stop) (.missing stop)
  | stopped : Alike same .stopped .stopped

/-- Two questions, each put to its own state, come to matching ends. -/
def Paired {α β : Type} (errors : Fault → Fault → Prop) (relate : α → β → Prop)
    (first second : State) (query : Query α) (other : Query β) : Prop :=
  Matches errors relate (query first.volume first.heap).outcome
    (other second.volume second.heap).outcome

/-- Two questions, each put to its own state, come to matching ends with the same
faults. -/
def Parallel {α β : Type} (relate : α → β → Prop) (first second : State)
    (query : Query α) (other : Query β) : Prop :=
  Matches Eq relate (query first.volume first.heap).outcome
    (other second.volume second.heap).outcome

namespace Paired

variable {α β γ δ : Type} {errors : Fault → Fault → Prop} {relate : α → β → Prop}
  {after : γ → δ → Prop} {first second : State}

theorem bind {query : Query α} {other : Query β} {next : α → Query γ} {rest : β → Query δ}
    (h : Paired errors relate first second query other)
    (hnext : ∀ a b, relate a b → Paired errors after first second (next a) (rest b)) :
    Paired errors after first second (query >>= next) (other >>= rest) := by
  unfold Paired
  rw [Query.outcome_bind_eq, Query.outcome_bind_eq]
  exact Matches.bind h hnext

theorem node_bind {a b : NodeId} {next : Node → Query γ} {rest : Node → Query δ}
    (h : Paired errors after first second (next (first.heap.get a))
      (rest (second.heap.get b))) :
    Paired errors after first second (Query.node a >>= next) (Query.node b >>= rest) := by
  unfold Paired
  rw [Query.outcome_node_bind, Query.outcome_node_bind]
  exact h

theorem volume_bind {next : Volume → Query γ} {rest : Volume → Query δ}
    (h : Paired errors after first second (next first.volume) (rest second.volume)) :
    Paired errors after first second (Query.volume >>= next) (Query.volume >>= rest) := by
  unfold Paired
  rw [Query.outcome_volume_bind, Query.outcome_volume_bind]
  exact h

theorem pure {a : γ} {b : δ} (h : after a b) :
    Paired errors after first second (Pure.pure a) (Pure.pure b) := h

theorem refuse {fault other : Fault} (h : errors fault other) :
    Paired errors after first second (Query.refuse fault) (Query.refuse other) := h

end Paired

namespace Parallel

variable {α β γ δ : Type} {relate : α → β → Prop} {after : γ → δ → Prop}
  {first second : State}

theorem bind {query : Query α} {other : Query β} {next : α → Query γ} {rest : β → Query δ}
    (h : Parallel relate first second query other)
    (hnext : ∀ a b, relate a b → Parallel after first second (next a) (rest b)) :
    Parallel after first second (query >>= next) (other >>= rest) :=
  Paired.bind h hnext

theorem node_bind {a b : NodeId} {next : Node → Query γ} {rest : Node → Query δ}
    (h : Parallel after first second (next (first.heap.get a))
      (rest (second.heap.get b))) :
    Parallel after first second (Query.node a >>= next) (Query.node b >>= rest) :=
  Paired.node_bind h

theorem volume_bind {next : Volume → Query γ} {rest : Volume → Query δ}
    (h : Parallel after first second (next first.volume) (rest second.volume)) :
    Parallel after first second (Query.volume >>= next) (Query.volume >>= rest) :=
  Paired.volume_bind h

theorem pure {a : γ} {b : δ} (h : after a b) :
    Parallel after first second (Pure.pure a) (Pure.pure b) := h

theorem refuse (fault : Fault) :
    Parallel after first second (Query.refuse fault) (Query.refuse fault) := rfl

/-- The same faults are related by every relation that keeps a fault to itself. -/
theorem paired {query : Query α} {other : Query β} {errors : Fault → Fault → Prop}
    (h : Parallel relate first second query other) (hself : ∀ fault, errors fault fault) :
    Paired errors relate first second query other := by
  unfold Paired
  rcases Matches.cases h with ⟨fault, _, hfirst, hsecond, rfl⟩ | ⟨a, b, hfirst, hsecond, hrel⟩
  · rw [hfirst, hsecond]
    exact hself fault
  · rw [hfirst, hsecond]
    exact hrel

end Parallel

/-- States that are the same to whoever asks for certain paths only, up to a
correspondence of the nodes. -/
structure State.Abreast (asked : Path → Prop) (same : NodeId → NodeId → Prop)
    (first second : State) : Prop where
  settings : first.volume.settings = second.volume.settings
  live : ∀ path, asked path →
    Option.Rel same (first.volume.live? path) (second.volume.live? path)
  target : ∀ a b, same a b → (first.heap.get a).target = (second.heap.get b).target
  leads : ∀ a b, same a b → (first.heap.get a).isLink = true →
    asked (first.heap.get a).target

namespace State.Abreast

variable {asked : Path → Prop} {same : NodeId → NodeId → Prop} {first second : State}
  {path : Path} {a b : NodeId} (h : Abreast asked same first second)

include h

theorem isLink_eq (hsame : same a b) :
    (first.heap.get a).isLink = (second.heap.get b).isLink := by
  unfold Node.isLink
  rw [h.target a b hsame]

theorem live?_cases (hpath : asked path) :
    (first.volume.live? path = none ∧ second.volume.live? path = none) ∨
      ∃ a b, first.volume.live? path = some a ∧ second.volume.live? path = some b ∧
        same a b := by
  have hlive := h.live path hpath
  generalize first.volume.live? path = held, second.volume.live? path = other at hlive
  cases hlive with
  | none => exact Or.inl ⟨rfl, rfl⟩
  | some hsame => exact Or.inr ⟨_, _, rfl, rfl, hsame⟩

theorem occupied_eq (hpath : asked path) :
    first.volume.occupied path = second.volume.occupied path := by
  unfold Volume.occupied
  rcases h.live?_cases hpath with ⟨hfirst, hsecond⟩ | ⟨a, b, hfirst, hsecond, -⟩
  · rw [hfirst, hsecond]
  · rw [hfirst, hsecond]
    rfl

/-- Searches from a path that is asked for end alike at once, or meet links that
correspond. -/
theorem search_cases (hpath : asked path) :
    (∀ hops, Resolution.Alike same (first.volume.search first.heap hops path).resolution
        (second.volume.search second.heap hops path).resolution) ∨
      ∃ a b, first.volume.live? path = some a ∧ second.volume.live? path = some b ∧
        same a b ∧ (first.heap.get a).isLink = true := by
  rcases h.live?_cases hpath with ⟨hfirst, hsecond⟩ | ⟨a, b, hfirst, hsecond, hsame⟩
  · left
    intro hops
    rw [Volume.search_of_absent _ _ hfirst, Volume.search_of_absent _ _ hsecond]
    exact .missing path
  · cases hlink : (first.heap.get a).isLink with
    | true => exact Or.inr ⟨a, b, hfirst, hsecond, hsame, hlink⟩
    | false =>
        left
        intro hops
        have hother : (second.heap.get b).isLink = false := by
          rw [← h.isLink_eq hsame]
          exact hlink
        rw [Volume.search_of_not_isLink hops hfirst hlink,
          Volume.search_of_not_isLink hops hsecond hother]
        exact .found hsame

/-- With the same number of hops, searches from a path that is asked for end alike. -/
theorem search_alike (hops : Nat) (hpath : asked path) :
    Resolution.Alike same (first.volume.search first.heap hops path).resolution
      (second.volume.search second.heap hops path).resolution := by
  induction hops generalizing path with
  | zero =>
      rcases h.search_cases hpath with hend | ⟨a, b, hfirst, hsecond, hsame, hlink⟩
      · exact hend 0
      · have hother : (second.heap.get b).isLink = true := by
          rw [← h.isLink_eq hsame]
          exact hlink
        rw [Volume.search_zero_of_isLink hfirst hlink,
          Volume.search_zero_of_isLink hsecond hother]
        exact .stopped
  | succ hops ih =>
      rcases h.search_cases hpath with hend | ⟨a, b, hfirst, hsecond, hsame, hlink⟩
      · exact hend (hops + 1)
      · have hother : (second.heap.get b).isLink = true := by
          rw [← h.isLink_eq hsame]
          exact hlink
        -- Both go on from one target, and that target may be asked for.
        rw [Volume.search_succ_of_isLink hops hfirst hlink,
          Volume.search_succ_of_isLink hops hsecond hother, ← h.target a b hsame]
        exact ih (h.leads a b hsame hlink)

/-- Without a bound on the hops each search has as many as its own volume has
paths, which both may exceed without another end. -/
theorem resolve_alike (hpath : asked path) :
    Resolution.Alike same (first.volume.resolve first.heap path).resolution
      (second.volume.resolve second.heap path).resolution := by
  unfold Volume.resolve
  rw [← h.settings]
  cases first.volume.settings.hopBound with
  | some hops => exact h.search_alike hops hpath
  | none =>
      rw [Option.getD_none, Option.getD_none,
        Volume.resolution_enoughHops
          (Nat.le_max_left first.volume.enoughHops second.volume.enoughHops),
        Volume.resolution_enoughHops
          (Nat.le_max_right first.volume.enoughHops second.volume.enoughHops)]
      exact h.search_alike _ hpath

theorem lookUp (hpath : asked path) :
    Parallel same first second (Query.lookUp path) (Query.lookUp path) := by
  unfold Parallel Query.lookUp
  rcases h.live?_cases hpath with ⟨hfirst, hsecond⟩ | ⟨a, b, hfirst, hsecond, hsame⟩
  · rw [hfirst, hsecond]
    rfl
  · rw [hfirst, hsecond]
    exact hsame

theorem resolve (hpath : asked path) :
    Parallel same first second (Query.resolve path) (Query.resolve path) := by
  have halike := h.resolve_alike hpath
  have hfault : first.volume.stopFault path = second.volume.stopFault path := by
    unfold Volume.stopFault
    rw [h.settings]
  unfold Parallel Query.resolve
  simp only
  generalize (first.volume.resolve first.heap path).resolution = ending,
    (second.volume.resolve second.heap path).resolution = other at halike
  cases halike with
  | found hsame => exact hsame
  | missing stop => exact rfl
  | stopped => exact hfault

theorem requireFree (hpath : asked path) :
    Parallel (fun _ _ => True) first second (Plan.requireFree path)
      (Plan.requireFree path) := by
  unfold Plan.requireFree
  apply Parallel.volume_bind
  rw [h.occupied_eq hpath]
  split
  · exact Parallel.refuse _
  · exact Parallel.pure trivial

end State.Abreast

end FlatTree
