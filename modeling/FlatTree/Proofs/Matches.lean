import FlatTree.Proofs.Query

/-!
Two computations side by side. Their ends match when both have values that are
related, or both have errors that are. Matching goes step by step through
sequences, so two courses of questions are compared one question at a time.
-/

namespace FlatTree

/-- Both ends are values that are related, or both are errors that are. -/
def Matches {ε δ α β : Type} (errors : ε → δ → Prop) (values : α → β → Prop) :
    Except ε α → Except δ β → Prop
  | .ok first, .ok second => values first second
  | .error first, .error second => errors first second
  | _, _ => False

namespace Matches

variable {ε δ α β γ κ : Type} {errors : ε → δ → Prop} {values : α → β → Prop}
  {after : γ → κ → Prop}

theorem bind {first : Except ε α} {second : Except δ β} {next : α → Except ε γ}
    {rest : β → Except δ κ} (h : Matches errors values first second)
    (hnext : ∀ found expected, values found expected →
      Matches errors after (next found) (rest expected)) :
    Matches errors after (first >>= next) (second >>= rest) := by
  cases first with
  | error fault =>
      cases second with
      | error other => exact h
      | ok expected => exact h.elim
  | ok found =>
      cases second with
      | error other => exact h.elim
      | ok expected => exact hnext found expected h

theorem imp {errors' : ε → δ → Prop} {values' : α → β → Prop} {first : Except ε α}
    {second : Except δ β} (h : Matches errors values first second)
    (herrors : ∀ fault other, errors fault other → errors' fault other)
    (hvalues : ∀ found expected, values found expected → values' found expected) :
    Matches errors' values' first second := by
  cases first with
  | error fault =>
      cases second with
      | error other => exact herrors fault other h
      | ok expected => exact h.elim
  | ok found =>
      cases second with
      | error other => exact h.elim
      | ok expected => exact hvalues found expected h

theorem of_eq {errors : ε → ε → Prop} {first second : Except ε α}
    (herrors : ∀ fault, errors fault fault) (h : first = second) :
    Matches errors Eq first second := by
  subst h
  cases first with
  | error fault => exact herrors fault
  | ok value => exact rfl

theorem cases {first : Except ε α} {second : Except δ β}
    (h : Matches errors values first second) :
    (∃ fault other, first = .error fault ∧ second = .error other ∧ errors fault other) ∨
      ∃ found expected, first = .ok found ∧ second = .ok expected ∧ values found expected := by
  cases first with
  | error fault =>
      cases second with
      | error other => exact Or.inl ⟨fault, other, rfl, rfl, h⟩
      | ok expected => exact h.elim
  | ok found =>
      cases second with
      | error other => exact h.elim
      | ok expected => exact Or.inr ⟨found, expected, rfl, rfl, h⟩

end Matches

namespace Query

variable {α β : Type}

/-- The end of two questions is the end of the second with the answer to the first. -/
theorem outcome_bind_eq (query : Query α) (next : α → Query β) (volume : Volume)
    (heap : Heap) :
    ((query >>= next) volume heap).outcome =
      (query volume heap).outcome >>= fun value => (next value volume heap).outcome := by
  rw [outcome_bind]
  cases (query volume heap).outcome <;> rfl

theorem outcome_node_bind (id : NodeId) (next : Node → Query β) (volume : Volume)
    (heap : Heap) :
    ((node id >>= next) volume heap).outcome = ((next (heap.get id)) volume heap).outcome :=
  outcome_bind _ _ _ _

theorem outcome_volume_bind (next : Volume → Query β) (volume : Volume) (heap : Heap) :
    ((Query.volume >>= next) volume heap).outcome =
      ((next volume) volume heap).outcome :=
  outcome_bind _ _ _ _

end Query

end FlatTree
