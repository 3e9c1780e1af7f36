import Mathlib
import Proximity.Transcript.Sampling

/-! Searches through numbered digests end at the least number that is enough, or once all are used
up. -/

namespace Proximity

/-- The last number that a search can use, if it starts with one that the counter can hold. -/
theorem add_remainingNumbers (counter : Nat) :
    counter + remainingNumbers counter = max counter (counterLimit - 1) := by
  unfold remainingNumbers
  omega

/-- A search for an accepted value ends at the least number behind the counter that has one, or has
tried all the numbers left in vain. -/
theorem firstAccepted_cases {α : Type} (accept : Nat → Option α) (remaining counter : Nat) :
    (∃ number value, IsLeast {number | counter < number ∧ accept number ≠ none} number ∧
        number ≤ counter + remaining ∧ accept number = some value ∧
        firstAccepted accept remaining counter = (some value, number)) ∨
      (∀ number, counter < number → number ≤ counter + remaining → accept number = none) ∧
        firstAccepted accept remaining counter = (none, counter + remaining + 1) := by
  -- Each number tried moves the counter, and leaves one number less.
  induction remaining generalizing counter with
  | zero => exact .inr ⟨fun number above below => by omega, rfl⟩
  | succ remaining ih =>
    cases tried : accept (counter + 1) with
    | some value =>
      -- No number lies between the counter and the next one.
      have first : IsLeast {number | counter < number ∧ accept number ≠ none} (counter + 1) :=
        ⟨⟨Nat.lt_succ_self _, by simp [tried]⟩, fun other behind => behind.1⟩
      exact .inl ⟨counter + 1, value, first, by omega, tried, by simp only [firstAccepted, tried]⟩
    | none =>
      -- The next number may be left out of the search.
      have behind : ∀ number, counter < number → accept number ≠ none → counter + 1 < number := by
        intro number above taken
        rcases Nat.eq_or_lt_of_le above with rfl | later
        · exact absurd tried taken
        · exact later
      have skipped : firstAccepted accept (remaining + 1) counter
          = firstAccepted accept remaining (counter + 1) := by
        simp only [firstAccepted, tried]
      rw [skipped]
      rcases ih (counter + 1) with
        ⟨number, value, ⟨⟨above, taken⟩, least⟩, within, found, ends⟩ | ⟨missed, ends⟩
      · -- The search behind the refused number ends at the same one.
        refine .inl ⟨number, value, ⟨⟨by omega, taken⟩, ?_⟩, by omega, found, ends⟩
        exact fun other asked => least ⟨behind other asked.1 asked.2, asked.2⟩
      · -- A number that were accepted would lie behind the refused one, where all are refused.
        refine .inr ⟨fun number above below => ?_, by rw [ends]; congr 1; omega⟩
        by_contra taken
        exact taken (missed number (behind number above taken) (by omega))

/-- The values at the first numbers behind a counter that have not been seen, each where it comes up
first. -/
def newValues (sample : Nat → Nat) (counter used : Nat) (seen : List Nat) : List Nat :=
  (((List.range' (counter + 1) used).map sample).filter (· ∉ seen)).eraseDups

section NewValues

variable {sample : Nat → Nat} {counter used : Nat} {seen : List Nat}

/-- Without a number there is no value. -/
@[simp] theorem newValues_zero : newValues sample counter 0 seen = [] := by
  simp [newValues]

/-- A value that has been seen is left out. -/
theorem newValues_succ_of_mem (known : sample (counter + 1) ∈ seen) :
    newValues sample counter (used + 1) seen = newValues sample (counter + 1) used seen := by
  -- The first number's value drops out of the list.
  unfold newValues
  rw [List.range'_succ, List.map_cons, List.filter_cons, if_neg (by simpa using known)]

/-- Any other one is new, and seen from then on. -/
theorem newValues_succ_of_not_mem (fresh : sample (counter + 1) ∉ seen) :
    newValues sample counter (used + 1) seen
      = sample (counter + 1) ::
        newValues sample (counter + 1) used (sample (counter + 1) :: seen) := by
  unfold newValues
  rw [List.range'_succ, List.map_cons, List.filter_cons, if_pos (by simpa using fresh),
    List.eraseDups_cons, List.filter_filter]
  -- What differs from the value and has not been seen is not among the values seen by then.
  congr 3
  funext value
  simp [beq_eq_decide]

/-- New values are values at one of the numbers that have not been seen. -/
theorem mem_newValues {value : Nat} :
    value ∈ newValues sample counter used seen ↔
      value ∉ seen ∧ ∃ number ∈ List.range' (counter + 1) used, sample number = value := by
  simp only [newValues, List.mem_eraseDups, List.mem_filter, List.mem_map, decide_eq_true_eq,
    and_comm]

/-- No value is new twice. -/
theorem nodup_newValues : (newValues sample counter used seen).Nodup := by
  -- A value that has come up is among those seen from the next number on.
  induction used generalizing counter seen with
  | zero => simp
  | succ used ih =>
    by_cases known : sample (counter + 1) ∈ seen
    · rw [newValues_succ_of_mem known]
      exact ih
    · rw [newValues_succ_of_not_mem known]
      exact List.nodup_cons.mpr ⟨fun again => (mem_newValues.mp again).1 List.mem_cons_self, ih⟩

/-- More numbers add their new values behind the others. -/
theorem newValues_prefix {further : Nat} (more : used ≤ further) :
    newValues sample counter used seen <+: newValues sample counter further seen := by
  -- Further numbers stand behind those used, and add nothing before their values.
  obtain ⟨rest, rfl⟩ := Nat.exists_eq_add_of_le more
  unfold newValues
  rw [← List.range'_append_1, List.map_append, List.filter_append, List.eraseDups_append]
  exact List.prefix_append ..

end NewValues

section FirstDistinct

variable {sample : Nat → Nat} {remaining counter wanted : Nat} {seen : List Nat}

/-- A search for no value ends at once. -/
theorem firstDistinct_zero : firstDistinct sample remaining counter 0 seen = (some [], counter) := by
  cases remaining <;> rfl

/-- A value that has been seen does not count. -/
theorem firstDistinct_succ_of_mem (known : sample (counter + 1) ∈ seen) :
    firstDistinct sample (remaining + 1) counter (wanted + 1) seen
      = firstDistinct sample remaining (counter + 1) (wanted + 1) seen := by
  simp only [firstDistinct, if_pos known]

/-- Any other one comes before those that are still wanted. -/
theorem firstDistinct_succ_of_not_mem (fresh : sample (counter + 1) ∉ seen) :
    firstDistinct sample (remaining + 1) counter (wanted + 1) seen
      = (firstDistinct sample remaining (counter + 1) wanted (sample (counter + 1) :: seen)).map
        (·.map (sample (counter + 1) :: ·)) id := by
  simp only [firstDistinct, if_neg fresh, Prod.map]
  rfl

end FirstDistinct

/-- What does not hold at zero holds for the first time right behind where it does of successors. -/
theorem isLeast_succ {holds : Nat → Prop} {used : Nat} (later : ¬holds 0)
    (least : IsLeast {used | holds (used + 1)} used) : IsLeast {used | holds used} (used + 1) := by
  -- Zero is no candidate, and every other candidate is one behind another.
  refine ⟨least.1, fun other held => ?_⟩
  cases other with
  | zero => exact absurd held later
  | succ other => exact Nat.succ_le_succ (least.2 held)

/-- A search for distinct values ends at the least number by which as many have come up as wanted, or
has used all the numbers left without coming to so many. -/
theorem firstDistinct_cases (sample : Nat → Nat) (remaining counter wanted : Nat) (seen : List Nat) :
    (∃ used, IsLeast {used | wanted ≤ (newValues sample counter used seen).length} used ∧
        used ≤ remaining ∧ (newValues sample counter used seen).length = wanted ∧
        firstDistinct sample remaining counter wanted seen
          = (some (newValues sample counter used seen), counter + used)) ∨
      (newValues sample counter remaining seen).length < wanted ∧
        firstDistinct sample remaining counter wanted seen = (none, counter + remaining + 1) := by
  -- With every number tried one less is left, and what is seen and wanted may change.
  induction remaining generalizing counter wanted seen with
  | zero =>
    -- Only a search for no value succeeds without a number.
    cases wanted with
    | zero =>
      exact .inl ⟨0, ⟨Nat.zero_le _, fun _ _ => Nat.zero_le _⟩, Nat.le_refl _, by simp,
        by simp [firstDistinct_zero]⟩
    | succ wanted => exact .inr ⟨by simp, rfl⟩
  | succ remaining ih =>
    cases wanted with
    | zero =>
      -- Nothing is wanted, so no number is used although there are some.
      exact .inl ⟨0, ⟨Nat.zero_le _, fun _ _ => Nat.zero_le _⟩, Nat.zero_le _, by simp,
        by simp [firstDistinct_zero]⟩
    | succ wanted =>
      -- No value is among the first zero, so the search goes on behind the first number.
      have none : ¬wanted + 1 ≤ (newValues sample counter 0 seen).length := by simp
      have shift : ∀ used, counter + 1 + used = counter + (used + 1) := fun used => by omega
      by_cases known : sample (counter + 1) ∈ seen
      · -- The same values are new as behind the first number.
        simp only [firstDistinct_succ_of_mem known]
        rcases ih (counter + 1) (wanted + 1) seen with
          ⟨used, least, within, length, ends⟩ | ⟨short, ends⟩
        · simp only [← newValues_succ_of_mem known] at least length ends
          exact .inl ⟨used + 1, isLeast_succ none least, Nat.succ_le_succ within, length,
            by rw [ends, shift]⟩
        · rw [← newValues_succ_of_mem known] at short
          exact .inr ⟨short, by rw [ends, shift]⟩
      · -- The value counts, so one less of the others is wanted.
        have length : ∀ used, (newValues sample counter (used + 1) seen).length
            = (newValues sample (counter + 1) used (sample (counter + 1) :: seen)).length + 1 := by
          intro used
          rw [newValues_succ_of_not_mem known, List.length_cons]
        rw [firstDistinct_succ_of_not_mem known, length, Nat.add_lt_add_iff_right]
        rcases ih (counter + 1) wanted (sample (counter + 1) :: seen) with
          ⟨used, least, within, enough, ends⟩ | ⟨short, ends⟩
        · refine .inl ⟨used + 1, isLeast_succ none ?_, Nat.succ_le_succ within,
            by rw [length, enough], ?_⟩
          · simpa only [length, Nat.add_le_add_iff_right] using least
          · rw [ends, newValues_succ_of_not_mem known, ← shift used]
            rfl
        · refine .inr ⟨short, ?_⟩
          rw [ends, shift remaining]
          rfl

end Proximity
