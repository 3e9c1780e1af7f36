import Mathlib
import Proximity.Proofs.Transcript.Rejection

/-! Positions are the first distinct ones behind the counter, in the order in which they come up; asking
for more of them only adds to those that come first. -/

namespace Proximity

namespace Channel

variable {field : PrimeField} {hasher : Hasher} {count domainSize : Int}

/-- What positions can be drawn for: a domain whose size is a power of two, and at least one position of
it, but not more than it has. -/
structure Drawable (count domainSize : Int) : Prop where
  isPowerOfTwo_domainSize : domainSize.toNat.isPowerOfTwo
  one_le_count : 1 ≤ count
  count_le : count ≤ domainSize

namespace Drawable

/-- Fewer positions can be drawn as well, as long as there is one. -/
theorem fewer (drawable : Drawable count domainSize) {less : Int} (some : 1 ≤ less)
    (below : less ≤ count) : Drawable less domainSize :=
  ⟨drawable.isPowerOfTwo_domainSize, some, below.trans drawable.count_le⟩

end Drawable

/-- The position at a number: the first eight bytes of its digest, cut to the binary digits of the
domain. -/
def positionAt (channel : Channel field hasher) (domainSize number : Nat) : Nat :=
  Bytes.toNat ((hasher.digest (channel.state ++ Bytes.ofNat 8 number)).take 8) % 2 ^ domainSize.log2

/-- The distinct positions at the first numbers behind the counter, each where it comes up first. -/
def distinctPositions (channel : Channel field hasher) (domainSize used : Nat) : List Nat :=
  ((List.range' (channel.counter + 1) used).map (channel.positionAt domainSize)).eraseDups

section DistinctPositions

variable (channel : Channel field hasher) {used size : Nat}

/-- With nothing seen before, the new values are the distinct ones. -/
theorem newValues_positionAt :
    newValues (channel.positionAt size) channel.counter used []
      = channel.distinctPositions size used := by
  -- What is new is what has not come up before.
  simp [newValues, distinctPositions]

/-- More numbers add their positions behind the others. -/
theorem distinctPositions_prefix (size : Nat) {further : Nat} (more : used ≤ further) :
    -- Both are new values of one search.
    channel.distinctPositions size used <+: channel.distinctPositions size further := by
  rw [← newValues_positionAt, ← newValues_positionAt]
  exact newValues_prefix more

/-- No position is listed twice. -/
theorem nodup_distinctPositions : (channel.distinctPositions size used).Nodup := by
  rw [← newValues_positionAt]
  exact nodup_newValues

/-- All positions lie in the domain. -/
theorem lt_of_mem_distinctPositions {position : Nat} (power : size.isPowerOfTwo)
    (member : position ∈ channel.distinctPositions size used) : position < size := by
  rw [← newValues_positionAt] at member
  obtain ⟨_, number, _, rfl⟩ := mem_newValues.mp member
  -- As many digits are kept as positions take in a domain of such a size.
  obtain ⟨digits, rfl⟩ := power
  rw [positionAt, Nat.log2_two_pow]
  exact Nat.mod_lt _ (Nat.two_pow_pos digits)

end DistinctPositions

variable (channel : Channel field hasher)

/-- Other requests are refused, and leave the channel as it is. -/
theorem drawPositions_of_not_drawable (refused : ¬Drawable count domainSize) :
    ∃ fault ∈ [Fault.domainSize domainSize, .queryCount domainSize count],
      channel.drawPositions count domainSize = (.error fault, channel) := by
  -- The domain is checked before the count.
  by_cases power : domainSize.toNat.isPowerOfTwo
  · -- The domain would do, so there are too few positions asked for, or too many.
    have outside : count ≤ 0 ∨ domainSize < count := by
      by_contra inside
      exact refused ⟨power, by omega, by omega⟩
    exact ⟨.queryCount domainSize count, by simp, by simp [drawPositions, power, outside]⟩
  · -- A domain of any other size is refused, whatever is asked for.
    exact ⟨.domainSize domainSize, by simp, by simp [drawPositions, power]⟩

/-- Where positions can be drawn, the channel either stays at the least number by which as many distinct
ones have come up, or has come to its last number without them. -/
theorem drawPositions_least (drawable : Drawable count domainSize) :
    (∃ used, IsLeast {used | count ≤ (channel.distinctPositions domainSize.toNat used).length} used ∧
        channel.counter + used < counterLimit ∧
        ((channel.distinctPositions domainSize.toNat used).length : Int) = count ∧
        channel.drawPositions count domainSize = (.ok (channel.distinctPositions domainSize.toNat used),
          { channel with counter := channel.counter + used })) ∨
      (∀ used, channel.counter + used < counterLimit →
          (channel.distinctPositions domainSize.toNat used).length < count) ∧
        channel.drawPositions count domainSize = (.error .counterExhausted,
          { channel with counter := max channel.counter (counterLimit - 1) + 1 }) := by
  -- The numbers left are those that the counter can still hold.
  have last := add_remainingNumbers channel.counter
  have some : 0 < counterLimit := by decide
  have asked := drawable.one_le_count
  -- Neither check refuses the request, so the search is all there is.
  have inside : ¬(count ≤ 0 ∨ domainSize < count) := by
    have room := drawable.count_le
    omega
  have sampled : (fun number => position domainSize.toNat (channel.squeeze number))
      = channel.positionAt domainSize.toNat := rfl
  unfold drawPositions
  rw [if_neg (not_not.mpr drawable.isPowerOfTwo_domainSize), if_neg inside, sampled]
  rcases firstDistinct_cases (channel.positionAt domainSize.toNat) (remainingNumbers channel.counter)
      channel.counter count.toNat [] with
    ⟨used, least, within, length, ends⟩ | ⟨short, ends⟩
  · -- The search has ended at a number that is left.
    left
    simp only [newValues_positionAt, Int.toNat_le] at least length ends
    refine ⟨used, least, ?_, by omega, by rw [ends]⟩
    -- Without a number there would be no position, so the counter has moved.
    have moved : used ≠ 0 := by
      rintro rfl
      have none : (channel.distinctPositions domainSize.toNat 0).length = 0 := rfl
      omega
    omega
  · -- Fewer numbers give no more positions than all that are left.
    right
    rw [newValues_positionAt] at short
    refine ⟨fun used below => ?_, by rw [ends, last]⟩
    have fewer := (channel.distinctPositions_prefix domainSize.toNat
      (show used ≤ remainingNumbers channel.counter by omega)).length_le
    omega

/-- The positions of a smaller request come first among those of a larger one. -/
theorem drawPositions_take {fewer more : Int} {positions : List Nat} (some : 1 ≤ fewer)
    (below : fewer ≤ more) (drawn : (channel.drawPositions more domainSize).1 = .ok positions) :
    (channel.drawPositions fewer domainSize).1 = .ok (positions.take fewer.toNat) := by
  -- A larger request that was answered was in order, and so is the smaller one.
  have drawable : Drawable more domainSize := by
    by_contra undrawable
    obtain ⟨fault, _, refused⟩ := channel.drawPositions_of_not_drawable undrawable
    rw [refused] at drawn
    simp at drawn
  rcases channel.drawPositions_least drawable with
    ⟨used, _, left, length, found⟩ | ⟨_, exhausted⟩
  · -- What was drawn are the positions at the first numbers, up to some.
    obtain rfl : channel.distinctPositions domainSize.toNat used = positions := by
      rw [found] at drawn
      exact Except.ok.inj drawn
    rcases channel.drawPositions_least (drawable.fewer some below) with
      ⟨first, least, _, size, foundFirst⟩ | ⟨missed, _⟩
    · -- The smaller request is answered no later than the larger one.
      have earlier : first ≤ used := least.2 (show fewer ≤ _ by omega)
      have taken := List.prefix_iff_eq_take.mp
        (channel.distinctPositions_prefix domainSize.toNat earlier)
      have length : (channel.distinctPositions domainSize.toNat first).length = fewer.toNat := by
        omega
      rw [foundFirst, ← length, ← taken]
    · -- The numbers of the larger request would have been enough.
      have short := missed used left
      omega
  · -- A request that runs out of numbers is not answered.
    rw [exhausted] at drawn
    simp at drawn

/-- Positions are refused, and the channel is left as it is, exactly if the domain's size is no power of
two or too few or too many are asked for. Else they are the first distinct ones that come up, all of them
in the domain, and the channel stays at the least number by which there are as many, unless it comes to
its last number before. From one channel, fewer positions are the first ones of more. -/
theorem positions_in_order_of_appearance (channel : Channel field hasher) (domainSize : Int) :
    (∀ count : Int,
      (¬Drawable count domainSize ↔
          ∃ fault ∈ [Fault.domainSize domainSize, .queryCount domainSize count],
            channel.drawPositions count domainSize = (.error fault, channel)) ∧
        (Drawable count domainSize →
          (∃ (used : Nat) (positions : List Nat),
            positions = channel.distinctPositions domainSize.toNat used ∧
              IsLeast {used | count ≤ (channel.distinctPositions domainSize.toNat used).length} used ∧
              channel.counter + used < counterLimit ∧
              (positions.length : Int) = count ∧ positions.Nodup ∧
              (∀ position ∈ positions, (position : Int) < domainSize) ∧
              channel.drawPositions count domainSize
                = (.ok positions, { channel with counter := channel.counter + used })) ∨
          (∀ used, channel.counter + used < counterLimit →
              (channel.distinctPositions domainSize.toNat used).length < count) ∧
            channel.drawPositions count domainSize = (.error .counterExhausted,
              { channel with counter := max channel.counter (counterLimit - 1) + 1 }))) ∧
      ∀ (fewer more : Int) (positions : List Nat), 1 ≤ fewer → fewer ≤ more →
        (channel.drawPositions more domainSize).1 = .ok positions →
          (channel.drawPositions fewer domainSize).1 = .ok (positions.take fewer.toNat) := by
  refine ⟨fun count => ⟨⟨channel.drawPositions_of_not_drawable, ?_⟩, fun drawable => ?_⟩,
    fun fewer more positions => channel.drawPositions_take⟩
  · -- A refusal for the request's own sake is one of these two.
    intro refused drawable
    obtain ⟨fault, among, same⟩ := refused
    -- A request that can be answered is not refused for its own sake.
    rcases channel.drawPositions_least drawable with ⟨_, _, _, _, drawn⟩ | ⟨_, exhausted⟩
    · simp [drawn] at same
    · -- Running out of numbers is a fault of another kind.
      rw [exhausted, Prod.mk.injEq, Except.error.injEq] at same
      rw [← same.1] at among
      simp at among
  · -- All of the positions are below the size, and different.
    rcases channel.drawPositions_least drawable with ⟨used, least, left, length, drawn⟩ | exhausted
    · refine .inl ⟨used, _, rfl, least, left, length, channel.nodup_distinctPositions,
        fun position member => ?_, drawn⟩
      have inside := channel.lt_of_mem_distinctPositions drawable.isPowerOfTwo_domainSize member
      omega
    · -- The numbers have run out.
      exact .inr exhausted

/-- A channel over the field of order 17 in which positions come up twice. -/
def unseeded : Channel seventeen halved :=
  ofSeed seventeen halved []

/-- Three positions out of eight take four numbers, as one of them comes up twice; two of them take no
more than the first two numbers, and nine are refused. -/
theorem positions_in_order_of_appearance_three_of_eight :
    Drawable 3 8 ∧
      IsLeast {used | (3 : Int) ≤ (unseeded.distinctPositions 8 used).length} 4 ∧
      unseeded.distinctPositions 8 4 = [7, 0, 1] ∧
      unseeded.drawPositions 3 8 = (.ok [7, 0, 1], { unseeded with counter := 4 }) ∧
      (1 : Int) ≤ 2 ∧ (2 : Int) ≤ 3 ∧ (unseeded.drawPositions 2 8).1 = .ok [7, 0] ∧
      ¬Drawable 9 8 ∧ ∃ fault ∈ [Fault.domainSize 8, .queryCount 8 9],
        unseeded.drawPositions 9 8 = (.error fault, unseeded) := by
  -- Eight positions are a power of two, so three of them can be drawn, but not nine.
  have drawable : Drawable 3 8 := ⟨⟨3, rfl⟩, by decide, by decide⟩
  have many : ¬Drawable 9 8 := fun drawable => absurd drawable.count_le (by decide)
  have drawn : unseeded.drawPositions 3 8 = (.ok [7, 0, 1], { unseeded with counter := 4 }) := by
    decide +kernel
  obtain ⟨asked, first⟩ := positions_in_order_of_appearance unseeded 8
  -- The two that are drawn first are the first two of three.
  have two := first 2 3 [7, 0, 1] (by decide) (by decide) (congrArg Prod.fst drawn)
  have refused := (asked 9).1.mp many
  rcases (asked 3).2 drawable with ⟨used, positions, rfl, least, _, _, _, _, found⟩ | ⟨_, exhausted⟩
  · have same := found.symm.trans drawn
    -- The counter has started at zero.
    have stays : 0 + used = 4 := congrArg (fun drawn => drawn.2.counter) same
    obtain rfl : used = 4 := by omega
    have listed := Except.ok.inj (congrArg Prod.fst same)
    exact ⟨drawable, least, listed, drawn, by decide, by decide, two, many, refused⟩
  · -- Three positions have been found, so the numbers have not run out.
    rw [drawn] at exhausted
    simp at exhausted

end Channel

end Proximity
