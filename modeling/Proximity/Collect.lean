import Proximity.Fault

/-! A step that may be refused, taken for every item of a list. -/

namespace Proximity

variable {α β : Type}

/-- The results for all items in order, or the first refusal. -/
def collect (step : α → Except Fault β) : List α → Except Fault (List β)
  | [] => .ok []
  | item :: rest => do
    let result ← step item
    let results ← collect step rest
    return result :: results

/-- A collection that starts well goes on with the rest. -/
theorem collect_cons_eq_ok_iff {step : α → Except Fault β} {item : α} {rest : List α}
    {results : List β} :
    collect step (item :: rest) = .ok results ↔
      ∃ result others, step item = .ok result ∧ collect step rest = .ok others ∧
        results = result :: others := by
  -- Both steps succeed, or the first refusal is the outcome.
  cases first : step item with
  | error fault => simp [collect, first, bind, Except.bind]
  | ok result =>
    cases others : collect step rest with
    | error fault => simp [collect, first, others, bind, Except.bind]
    | ok tail => simp [collect, first, others, bind, Except.bind, pure, Except.pure, eq_comm]

/-- There is one result for each item. -/
theorem length_collect {step : α → Except Fault β} {items : List α} {results : List β}
    (collected : collect step items = .ok results) : results.length = items.length := by
  induction items generalizing results with
  | nil =>
    simp only [collect, Except.ok.injEq] at collected
    simp [← collected]
  | cons item rest ih =>
    obtain ⟨result, others, _, tail, rfl⟩ := collect_cons_eq_ok_iff.mp collected
    simp [ih tail]

end Proximity
