import Mathlib
import Proximity.Proofs.Bytes
import Proximity.Proofs.Field.Arithmetic
import Proximity.Proofs.Transcript.Sampling
import Proximity.Transcript.Channel

/-! A challenge is the first candidate behind the counter that is an element, whatever the digests
are. -/

namespace Proximity

/-- Digests of the supported hash functions have 32 bytes. -/
theorem Hasher.digestSize_of_supported {hasher : Hasher} (supported : hasher ∈ Hasher.supported) :
    hasher.digestSize = 32 := by
  -- There are three of them, each with digests of that size.
  simp only [Hasher.supported, List.mem_cons, List.not_mem_nil, or_false] at supported
  rcases supported with rfl | rfl | rfl <;> rfl

namespace Channel

variable {field : PrimeField} {hasher : Hasher} {channel : Channel field hasher}

/-- A digest is turned into an element exactly if it spells the element's residue. -/
theorem candidate?_eq_some_iff {digest : Bytes} {element : Element field} :
    candidate? field digest = some element ↔
      lowBits field.byteLength field.bits digest = element.value := by
  -- The number spelled is compared with the order, and nothing else is.
  unfold candidate?
  dsimp only
  split
  · rw [Option.some.injEq, Element.ext_iff]
  · -- No element has a residue from the order on.
    rename_i outside
    refine ⟨fun none => by simp at none, fun spelled => ?_⟩
    exact absurd (spelled ▸ element.value_lt) outside

/-- A digest is refused exactly if the number it spells is not below the order. -/
theorem candidate?_eq_none_iff {digest : Bytes} :
    candidate? field digest = none ↔ field.order ≤ lowBits field.byteLength field.bits digest := by
  -- The same comparison, seen from the side of the refusals.
  unfold candidate?
  dsimp only
  split
  · rename_i inside
    simpa using inside
  · rename_i outside
    simpa using outside

/-- The candidate at a number: the first bytes of its digest, as many as an element takes, cut to as
many binary digits as the largest element has. -/
def elementCandidate (channel : Channel field hasher) (number : Nat) : Nat :=
  Bytes.toNat ((hasher.digest (channel.state ++ Bytes.ofNat 8 number)).take field.byteLength)
    % 2 ^ field.bits

/-- The candidate is the number that the channel's digest spells. -/
theorem lowBits_squeeze (channel : Channel field hasher) (number : Nat) :
    lowBits field.byteLength field.bits (channel.squeeze number) = channel.elementCandidate number :=
  rfl

/-- If elements have more digits than digests, all candidates are elements. -/
theorem elementCandidate_lt_order (wide : 8 * hasher.digestSize < field.bits) (number : Nat) :
    channel.elementCandidate number < field.order := by
  -- Not even the whole digest spells a number with as many digits.
  have digest := hasher.length_digest (channel.state ++ Bytes.ofNat 8 number)
  calc channel.elementCandidate number
      ≤ Bytes.toNat ((hasher.digest (channel.state ++ Bytes.ofNat 8 number)).take field.byteLength) :=
        Nat.mod_le ..
    _ ≤ Bytes.toNat (hasher.digest (channel.state ++ Bytes.ofNat 8 number)) := by
        rw [Bytes.toNat_take]
        exact Nat.mod_le ..
    _ < 256 ^ hasher.digestSize := digest ▸ Bytes.toNat_lt _
    _ = 2 ^ (8 * hasher.digestSize) := (pow_mul 2 8 _).symm
    _ ≤ field.order - 1 := two_pow_le_of_lt_bitLength wide
    _ ≤ field.order := Nat.sub_le ..

/-- With a root to bind to, a channel counts one challenge, and either stays at the least number behind
its counter whose candidate is an element, or has found all of them refused. -/
theorem drawChallenge_least (ahead : channel.challenges < channel.commitments.length) :
    (∃ (number : Nat) (challenge : Element field),
        IsLeast {number | channel.counter < number ∧ channel.elementCandidate number < field.order}
            number ∧
          number < counterLimit ∧ challenge.value = channel.elementCandidate number ∧
          channel.drawChallenge = (.ok challenge,
            { channel with counter := number, challenges := channel.challenges + 1 })) ∨
      (∀ number, channel.counter < number → number < counterLimit →
          field.order ≤ channel.elementCandidate number) ∧
        channel.drawChallenge = (.error .counterExhausted,
          { channel with
            counter := max channel.counter (counterLimit - 1) + 1
            challenges := channel.challenges + 1 }) := by
  -- The numbers behind the counter that it can still hold are those that are searched.
  have last := add_remainingNumbers channel.counter
  unfold drawChallenge
  rw [if_neg (Nat.not_le.mpr ahead)]
  rcases firstAccepted_cases (fun number => candidate? field (channel.squeeze number))
      (remainingNumbers channel.counter) channel.counter with
    ⟨number, challenge, least, within, accepted, ends⟩ | ⟨missed, ends⟩
  · -- The number at which the search ends is the least accepted one.
    left
    simp only [ne_eq, candidate?_eq_none_iff, not_le, lowBits_squeeze] at least
    refine ⟨number, challenge, least, ?_, (candidate?_eq_some_iff.mp accepted).symm, by rw [ends]⟩
    -- A number behind the counter is left only if the counter can hold it.
    have above := least.1.1
    have some : 0 < counterLimit := by decide
    omega
  · -- All the numbers that the counter can hold have been tried.
    -- Every number that is left has been refused, and the counter has run past the last of them.
    right
    refine ⟨fun number above below => ?_, by rw [ends, last]⟩
    exact candidate?_eq_none_iff.mp (missed number above (by omega))

/-- If the next candidate is an element, it is drawn. -/
theorem drawChallenge_next (ahead : channel.challenges < channel.commitments.length)
    (inside : channel.elementCandidate (channel.counter + 1) < field.order)
    (left : channel.counter + 1 < counterLimit) :
    channel.drawChallenge = (.ok ⟨_, inside⟩,
      { channel with counter := channel.counter + 1, challenges := channel.challenges + 1 }) := by
  rcases drawChallenge_least ahead with ⟨number, challenge, least, _, value, drawn⟩ | ⟨missed, _⟩
  · -- No number comes before the next one.
    have next : number = channel.counter + 1 :=
      (least.2 ⟨Nat.lt_succ_self _, inside⟩).antisymm least.1.1
    subst next
    have same : challenge = ⟨_, inside⟩ := Element.ext value
    rw [drawn, same]
  · -- The next candidate would have been refused, but is an element.
    have refused := missed (channel.counter + 1) (Nat.lt_succ_self _) left
    omega

/-- A channel with a root to bind to draws the candidate at the least number behind its counter that is
an element, counts one challenge and stays at that number, or finds all candidates refused that the
counter has left. If elements take more than 256 binary digits, it is the next candidate. -/
theorem challenge_of_least_number (channel : Channel field hasher)
    (ahead : channel.challenges < channel.commitments.length) :
    ((∃ (number : Nat) (challenge : Element field),
        IsLeast {number | channel.counter < number ∧ channel.elementCandidate number < field.order}
            number ∧
          number < counterLimit ∧ challenge.value = channel.elementCandidate number ∧
          channel.drawChallenge = (.ok challenge,
            { channel with counter := number, challenges := channel.challenges + 1 })) ∨
      (∀ number, channel.counter < number → number < counterLimit →
          field.order ≤ channel.elementCandidate number) ∧
        channel.drawChallenge = (.error .counterExhausted,
          { channel with
            counter := max channel.counter (counterLimit - 1) + 1
            challenges := channel.challenges + 1 })) ∧
      (hasher ∈ Hasher.supported → 256 < field.bits →
        ∃ challenge : Element field,
          challenge.value = channel.elementCandidate (channel.counter + 1) ∧
            (channel.counter + 1 < counterLimit →
              channel.drawChallenge = (.ok challenge,
                { channel with
                  counter := channel.counter + 1
                  challenges := channel.challenges + 1 }))) := by
  -- The first part is any draw's, and the second is about the very next candidate.
  refine ⟨drawChallenge_least ahead, fun supported wide => ?_⟩
  have size := Hasher.digestSize_of_supported supported
  -- Digests of 32 bytes spell no number of so many digits, so the next candidate is an element.
  have inside := channel.elementCandidate_lt_order (by omega) (channel.counter + 1)
  exact ⟨⟨_, inside⟩, rfl, drawChallenge_next ahead inside⟩

/-- Half the sum of all bytes as a digest of one byte. -/
def halved : Hasher where
  name := "halved"
  digestSize := 1
  digest data := [data.sum / 2]
  length_digest _ := rfl

/-- A channel over the field of order 17 whose next candidates are 17 and more. -/
def afterTwenty : Channel seventeen halved :=
  (ofSeed seventeen halved []).commit [20]

/-- The known field whose elements take the most digits. -/
def widest : PrimeField :=
  PrimeField.catalogue[31]

/-- A channel over that field with a root to bind to. -/
def afterOne : Channel widest Hasher.sha3 :=
  (ofSeed widest Hasher.sha3 []).commit [1]

/-- Thirty candidates are refused before the first element, but none if elements are wider than
digests. -/
theorem challenge_of_least_number_thirty_refused :
    afterTwenty.challenges < afterTwenty.commitments.length ∧
      IsLeast {number | 0 < number ∧ afterTwenty.elementCandidate number < 17} 31 ∧
      afterTwenty.drawChallenge = (.ok 0, { afterTwenty with counter := 31, challenges := 1 }) ∧
      afterOne.challenges < afterOne.commitments.length ∧ Hasher.sha3 ∈ Hasher.supported ∧
      256 < widest.bits ∧ 0 + 1 < counterLimit ∧
      ∃ challenge : Element widest, challenge.value = afterOne.elementCandidate 1 ∧
        afterOne.drawChallenge = (.ok challenge, { afterOne with counter := 1, challenges := 1 }) := by
  -- The draw is computed, with every candidate up to the thirty-first.
  have drawn : afterTwenty.drawChallenge
      = (.ok 0, { afterTwenty with counter := 31, challenges := 1 }) := by
    decide +kernel
  have ahead : afterTwenty.challenges < afterTwenty.commitments.length := Nat.one_pos
  have otherAhead : afterOne.challenges < afterOne.commitments.length := Nat.one_pos
  have supported : Hasher.sha3 ∈ Hasher.supported := List.mem_cons_self
  have wide : 256 < widest.bits := by decide +kernel
  have left : 0 + 1 < counterLimit := by decide
  obtain ⟨challenge, value, next⟩ :=
    -- The widest elements take more digits than a digest has.
    (challenge_of_least_number afterOne otherAhead).2 supported wide
  refine ⟨ahead, ?_, drawn, otherAhead, supported, wide, left, challenge, value, next left⟩
  rcases (challenge_of_least_number afterTwenty ahead).1 with
    ⟨number, _, least, _, _, found⟩ | ⟨_, exhausted⟩
  · -- The number at which the channel stays tells which one it was.
    have stays : number = 31 := congrArg (fun drawn => drawn.2.counter) (found.symm.trans drawn)
    exact stays ▸ least
  · -- The draw has found an element, so the numbers have not run out.
    rw [drawn] at exhausted
    simp at exhausted

end Channel

end Proximity
