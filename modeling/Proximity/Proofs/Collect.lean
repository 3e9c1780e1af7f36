import Mathlib
import Proximity.Collect

/-! Steps that may be refused: what the success of several of them says about each. -/

namespace Proximity

variable {α β : Type}

/-- Two steps succeed together exactly if both of them do. -/
theorem bind_eq_ok_iff {first : Except Fault α} {next : α → Except Fault β} {result : β} :
    first >>= next = .ok result ↔ ∃ value, first = .ok value ∧ next value = .ok result := by
  -- A refusal of the first step is the outcome.
  cases first with
  | error fault => simp [Bind.bind, Except.bind]
  | ok value => simp [Bind.bind, Except.bind]

/-- A step that has succeeded hands its value on. -/
@[simp] theorem ok_bind (value : α) (next : α → Except Fault β) :
    (Except.ok value >>= next) = next value :=
  rfl

/-- After a refusal nothing is done. -/
@[simp] theorem error_bind (fault : Fault) (next : α → Except Fault β) :
    (Except.error fault >>= next) = .error fault :=
  rfl

/-- A value that is returned is a success. -/
@[simp] theorem pure_eq_ok (value : α) : (pure value : Except Fault α) = .ok value :=
  rfl

/-- What is thrown is a refusal. -/
@[simp] theorem throw_eq_error (fault : Fault) : (throw fault : Except Fault α) = .error fault :=
  rfl

/-- A collection succeeds exactly if the step does for every item, each with its own result. -/
theorem collect_eq_ok_iff {step : α → Except Fault β} {items : List α} {results : List β} :
    collect step items = .ok results ↔
      List.Forall₂ (fun item result => step item = .ok result) items results := by
  -- One item after the other, the step succeeds for it and for the rest.
  induction items generalizing results with
  | nil => simp [collect, eq_comm]
  | cons item rest ih =>
    rw [collect_cons_eq_ok_iff, List.forall₂_cons_left_iff]
    simp only [ih]

/-- A step that succeeds for everything it is taken for has one result for each. -/
theorem collect_map_eq_ok {γ : Type} {step : α → Except Fault β} {items : List γ} {argument : γ → α}
    {result : γ → β} (each : ∀ item ∈ items, step (argument item) = .ok (result item)) :
    collect step (items.map argument) = .ok (items.map result) := by
  -- Item by item, the step has the result that belongs to it.
  rw [collect_eq_ok_iff, List.forall₂_map_left_iff, List.forall₂_map_right_iff, List.forall₂_same]
  exact each

/-- A step that refuses for one reason only succeeds for all items, or refuses all of them for it. -/
theorem collect_eq_ite {step : α → Except Fault β} {accepts : α → Prop} [DecidablePred accepts]
    {result : α → β} {fault : Fault}
    (guarded : ∀ item, step item = if accepts item then .ok (result item) else .error fault)
    (items : List α) :
    collect step items
      = if ∀ item ∈ items, accepts item then .ok (items.map result) else .error fault := by
  induction items with
  | nil => rfl
  | cons item rest ih =>
    rw [collect, guarded, ih]
    -- The first item is refused, or one of the rest, or none.
    by_cases first : accepts item
    · -- All items are accepted.
      by_cases others : ∀ other ∈ rest, accepts other
      · rw [if_pos first, if_pos others, if_pos (List.forall_mem_cons.mpr ⟨first, others⟩)]
        rfl
      · -- A later item is refused.
        rw [if_pos first, if_neg others,
          if_neg fun all => others (List.forall_mem_cons.mp all).2]
        rfl
    · -- The first item is refused, and the rest is not looked at.
      rw [if_neg first, if_neg fun all => first (List.forall_mem_cons.mp all).1]
      rfl

end Proximity
