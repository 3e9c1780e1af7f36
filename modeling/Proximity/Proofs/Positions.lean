import Mathlib
import Proximity.Positions
import Proximity.Proofs.Ascending
import Proximity.Proofs.Collect

/-! Positions folded again and again stay ascending, distinct and inside the domain that is left. -/

namespace Proximity

/-- Without a negative size or factor, the rows are remainders by the number of rows. -/
theorem foldPositions_eq_ok {size factor : Nat} (room : size / factor ≠ 0) (positions : List Int) :
    foldPositions positions size factor
      = .ok (ascending (positions.map (· % ((size / factor : Nat) : Int)))) := by
  -- A factor of zero leaves no rows.
  have wide : factor ≠ 0 := by
    rintro rfl
    exact room (Nat.div_zero size)
  have rows : (size : Int).fdiv factor = ((size / factor : Nat) : Int) :=
    (Int.ofNat_fdiv size factor).symm
  -- With rows left and neither number negative, neither check refuses anything.
  have some : ((size / factor : Nat) : Int) ≠ 0 := Int.natCast_ne_zero.mpr room
  unfold foldPositions
  rw [if_neg (Int.natCast_ne_zero.mpr wide), rows]
  simp only [some, false_and, if_false, Int.fmod_eq_emod_of_nonneg _ (Int.natCast_nonneg _)]

/-- The positions of some rounds later, folded once for each round. -/
def foldedPositions (positions : List Int) (size factor : Nat) : (rounds : Nat) → Except Fault (List Int)
  | 0 => .ok positions
  | rounds + 1 => do
    let before ← foldedPositions positions size factor rounds
    foldPositions before ((size / factor ^ rounds : Nat) : Int) factor

/-- The first fold may be taken apart from the others, which start in the smaller domain. -/
theorem foldedPositions_succ {positions folded : List Int} {size factor : Nat}
    (first : foldPositions positions size factor = .ok folded) (rounds : Nat) :
    foldedPositions positions size factor (rounds + 1)
      = foldedPositions folded (size / factor) factor rounds := by
  -- Folding from the smaller domain divides once less by the factor.
  induction rounds with
  | zero => simpa [foldedPositions] using first
  | succ rounds ih =>
    rw [foldedPositions, ih, foldedPositions, Nat.div_div_eq_div_mul, ← pow_succ']

/-- Rows of a domain that is folded on are those of the positions themselves, as the smaller number of rows
divides the larger one. -/
theorem ascending_emod_ascending (positions : List Int) {before after : Nat} (divides : after ∣ before) :
    ascending ((ascending (positions.map (· % (before : Int)))).map (· % (after : Int)))
      = ascending (positions.map (· % (after : Int))) := by
  -- Taking remainders twice, the second time by a divisor, is taking them once.
  refine ascending_congr fun row => ?_
  simp only [List.mem_map, mem_ascending, exists_exists_and_eq_and,
    Int.emod_emod_of_dvd _ (Int.natCast_dvd_natCast.mpr divides)]

/-- Folding once for each round is folding once by all factors together. -/
theorem foldedPositions_succ_eq_ok {size factor rounds : Nat} (room : size / factor ^ (rounds + 1) ≠ 0)
    (divides : factor ^ (rounds + 1) ∣ size) (positions : List Int) :
    foldedPositions positions size factor (rounds + 1)
      = .ok (ascending (positions.map (· % ((size / factor ^ (rounds + 1) : Nat) : Int)))) := by
  -- The domains before and after a round differ by one factor.
  have shrunk : ∀ rounds, size / factor ^ rounds / factor = size / factor ^ (rounds + 1) := fun rounds => by
    rw [Nat.div_div_eq_div_mul, ← pow_succ]
  induction rounds with
  -- One round is one fold.
  | zero =>
    rw [foldedPositions, foldedPositions, ok_bind, foldPositions_eq_ok ((shrunk 0).symm ▸ room), shrunk]
  | succ rounds ih =>
    -- There is room in the round before, and its domain is divided by the last one.
    have before : size / factor ^ (rounds + 1) ≠ 0 := fun none =>
      room (by rw [← shrunk, none, Nat.zero_div])
    have fewer := pow_dvd_pow factor (Nat.le_succ (rounds + 1))
    rw [foldedPositions, ih before (fewer.trans divides), ok_bind,
      foldPositions_eq_ok ((shrunk (rounds + 1)).symm ▸ room), shrunk,
      ascending_emod_ascending positions (Nat.div_dvd_div_left divides fewer)]

/-- Positions are folded as a set: neither their order nor a repetition shows. -/
theorem foldPositions_congr {positions others : List Int}
    (same : ∀ position, position ∈ others ↔ position ∈ positions) (size factor : Int) :
    foldPositions others size factor = foldPositions positions size factor := by
  -- Positions of one set are none on both sides or on neither.
  have none : others = [] ↔ positions = [] := by
    simp only [List.eq_nil_iff_forall_not_mem, same]
  -- They also have the same rows.
  have rows : ascending (others.map fun position => position.fmod (size.fdiv factor))
      = ascending (positions.map fun position => position.fmod (size.fdiv factor)) :=
    ascending_congr fun row => by simp only [List.mem_map, same]
  simp only [foldPositions, ne_eq, none, rows]

/-- The first fold has forgotten the order and the repetitions for all later ones. -/
theorem foldedPositions_congr {positions others : List Int}
    (same : ∀ position, position ∈ others ↔ position ∈ positions) (size factor rounds : Nat) :
    foldedPositions others size factor (rounds + 1)
      = foldedPositions positions size factor (rounds + 1) := by
  -- Later folds start from the same rows.
  induction rounds with
  | zero => exact foldPositions_congr same ..
  | succ rounds ih => rw [foldedPositions, ih, ← foldedPositions]

/-- A position by itself is folded to the one row that it stands in. -/
theorem foldedPositions_singleton {size factor rounds : Nat} (room : size / factor ^ (rounds + 1) ≠ 0)
    (divides : factor ^ (rounds + 1) ∣ size) (position : Int) :
    foldedPositions [position] size factor (rounds + 1)
      = .ok [position % ((size / factor ^ (rounds + 1) : Nat) : Int)] :=
  foldedPositions_succ_eq_ok room divides [position]

/-- Rows in order that some positions are folded to, each position by itself. -/
structure UnionOfFolds (positions : List Int) (size factor rounds : Nat) (rows : List Int) : Prop where
  sorted : rows.Pairwise (· < ·)
  mem_iff : ∀ row, row ∈ rows ↔
    ∃ position ∈ positions, foldedPositions [position] size factor rounds = .ok [row]

/-- Positions that are folded together lead to the rows that they lead to one by one. -/
theorem unionOfFolds_of_foldedPositions {size factor rounds : Nat} {positions rows : List Int}
    (room : size / factor ^ (rounds + 1) ≠ 0) (divides : factor ^ (rounds + 1) ∣ size)
    (folded : foldedPositions positions size factor (rounds + 1) = .ok rows) :
    UnionOfFolds positions size factor (rounds + 1) rows := by
  -- What is folded together is the list of all remainders.
  rw [foldedPositions_succ_eq_ok room divides, Except.ok.injEq] at folded
  subst folded
  refine ⟨pairwise_ascending _, fun row => ?_⟩
  -- A position by itself leads to its own remainder.
  simp only [mem_ascending, List.mem_map, foldedPositions_singleton room divides, Except.ok.injEq,
    List.cons.injEq, and_true]

/-- Positions that name rows, each of them once and in order. -/
structure NamesRows (rows : Nat) (positions : List Int) : Prop where
  nonempty : positions ≠ []
  sorted : positions.Pairwise (· < ·)
  inside : ∀ position ∈ positions, 0 ≤ position ∧ position < rows

/-- Folded positions name the rows of the smaller domain. -/
theorem namesRows_of_foldPositions {positions folded : List Int} {size factor : Nat}
    (room : size / factor ≠ 0) (nonempty : positions ≠ [])
    (once : foldPositions positions size factor = .ok folded) :
    NamesRows (size / factor) folded := by
  -- Remainders lie between zero and the number of rows.
  have some : (0 : Int) < ((size / factor : Nat) : Int) :=
    Int.natCast_pos.mpr (Nat.pos_of_ne_zero room)
  rw [foldPositions_eq_ok room, Except.ok.injEq] at once
  subst once
  -- Every position has a row, and a row is not listed twice.
  refine ⟨by simpa using nonempty, pairwise_ascending _, fun position member => ?_⟩
  obtain ⟨before, _, rfl⟩ := List.mem_map.mp (mem_ascending.mp member)
  exact ⟨Int.emod_nonneg _ some.ne', Int.emod_lt_of_pos _ some⟩

/-- One more fold succeeds while rows are left, and lists the row of every position before. -/
theorem exists_foldedPositions_succ {positions before : List Int} {size factor rounds : Nat}
    (room : size / factor ^ (rounds + 1) ≠ 0)
    (earlier : foldedPositions positions size factor rounds = .ok before) :
    ∃ rows, foldedPositions positions size factor (rounds + 1) = .ok rows ∧
      ∀ position ∈ before, 0 ≤ position →
        ((position.toNat % (size / factor ^ (rounds + 1)) : Nat) : Int) ∈ rows := by
  -- The domain of these rounds is as large as the quotient by all factors.
  have shrunk : size / factor ^ rounds / factor = size / factor ^ (rounds + 1) := by
    rw [Nat.div_div_eq_div_mul, ← pow_succ]
  have once := foldPositions_eq_ok (shrunk.symm ▸ room) before
  refine ⟨_, by rw [foldedPositions, earlier, ok_bind, once], fun position member natural => ?_⟩
  -- The row of a position is its remainder, as for any other position.
  rw [mem_ascending, shrunk, Int.natCast_mod, Int.toNat_of_nonneg natural]
  exact List.mem_map_of_mem member

end Proximity
