import Switchyard.Deflate.Inflater

/-!
# The buffer of a message

An inflated message fills a buffer that grows within a limit, so it is shorter than that limit
(`length_lt_of_inflate`). The buffer grows only when it is full and shorter than `maxMessage`, so its
first capacity decides the one it stops at (`finalCapacity`).
-/

namespace Switchyard.Inflater

/-! ### Growing -/

theorem lt_nextCapacity (n : Nat) : n < nextCapacity n := by
  unfold nextCapacity
  omega

/-- The capacity at which a buffer stops growing. -/
def finalCapacity (c : Nat) : Nat :=
  if c < maxMessage then finalCapacity (nextCapacity c) else c
termination_by maxMessage - c
decreasing_by
  have hlt := lt_nextCapacity c
  omega

theorem finalCapacity_nextCapacity {c : Nat} (h : c < maxMessage) :
    finalCapacity (nextCapacity c) = finalCapacity c := by
  rw [finalCapacity.eq_1 c, if_pos h]

theorem finalCapacity_of_le {c : Nat} (h : maxMessage ≤ c) : finalCapacity c = c := by
  rw [finalCapacity, if_neg (Nat.not_lt.2 h)]

theorem le_finalCapacity (c : Nat) : c ≤ finalCapacity c := by
  induction c using finalCapacity.induct with
  | case1 c hlt ih =>
    rw [← finalCapacity_nextCapacity hlt]
    exact Nat.le_trans (Nat.le_of_lt (lt_nextCapacity c)) ih
  | case2 c hle => exact Nat.le_of_eq (finalCapacity_of_le (Nat.not_lt.1 hle)).symm

theorem maxMessage_le_finalCapacity (c : Nat) : maxMessage ≤ finalCapacity c := by
  induction c using finalCapacity.induct with
  | case1 c hlt ih =>
    rw [← finalCapacity_nextCapacity hlt]
    exact ih
  | case2 c hle =>
    rw [finalCapacity_of_le (Nat.not_lt.1 hle)]
    exact Nat.not_lt.1 hle

/-- A message whose payload has `n` bytes is given if it is shorter than this. -/
def sizeLimit (n : Nat) : Nat :=
  finalCapacity (firstCapacity n)

/-! ### Filling -/

/-- The size that is kept is that of the parts, and the buffer is within its limit. -/
structure Progress.IsSound (p : Progress) : Prop where
  size_eq : p.size = p.parts.reverse.flatten.length
  capacity_le : p.capacity ≤ capacityLimit

namespace Progress

variable {p : Progress}

/-- Where a stream has ended, the next one begins. -/
theorem inflater_advance (p : Progress) (c : Nat) :
    (p.advance c).inflater =
      if (p.inflater.fill p.rest (c - p.size)).inflater.hasEnded then .start
      else (p.inflater.fill p.rest (c - p.size)).inflater :=
  rfl

theorem hasEnded_advance (p : Progress) (c : Nat) :
    (p.advance c).inflater.hasEnded = false := by
  rw [inflater_advance]
  split
  · rfl
  · next hrunning => exact Bool.eq_false_iff.2 hrunning

theorem room?_le {c : Nat} (h : p.IsSound) (hc : p.room? = some c) : c ≤ capacityLimit := by
  unfold room? at hc
  split at hc
  · cases hc
    exact h.capacity_le
  · split at hc
    · cases hc
    · next hsize =>
      cases hc
      unfold nextCapacity capacityLimit
      omega

/-- There is room for more bytes, in a buffer that stops growing where it would have stopped. -/
theorem room_of_some {c : Nat} (h : p.size ≤ p.capacity) (hc : p.room? = some c) :
    p.size < c ∧ finalCapacity c = finalCapacity p.capacity := by
  unfold room? at hc
  split at hc
  · next hlt =>
    cases hc
    exact ⟨hlt, rfl⟩
  · next hfull =>
    have heq : p.capacity = p.size := Nat.le_antisymm (Nat.not_lt.1 hfull) h
    split at hc
    · cases hc
    · next hsize =>
      cases hc
      refine ⟨lt_nextCapacity p.size, ?_⟩
      rw [heq]
      exact finalCapacity_nextCapacity (Nat.not_le.1 hsize)

/-- Without room, the buffer is full and has stopped growing. -/
theorem full_of_none (h : p.size ≤ p.capacity) (hnone : p.room? = none) :
    p.size = finalCapacity p.capacity := by
  unfold room? at hnone
  split at hnone
  · cases hnone
  · next hfull =>
    have heq : p.capacity = p.size := Nat.le_antisymm (Nat.not_lt.1 hfull) h
    split at hnone
    · next hsize => rw [heq, finalCapacity_of_le hsize]
    · cases hnone

theorem IsSound.advance {c : Nat} (h : p.IsSound) (hc : p.room? = some c) :
    (p.advance c).IsSound where
  size_eq := by
    simp only [Progress.advance, List.reverse_cons, List.flatten_append, List.length_append,
      List.flatten_cons, List.flatten_nil, List.append_nil, h.size_eq]
  capacity_le := room?_le h hc

theorem length_lt_of_finish {plain : Bytes} {i : Inflater} (h : p.IsSound)
    (hf : p.finish = (.ok plain, i)) : plain.length < capacityLimit := by
  fun_induction Progress.finish p with
  | case1 => cases hf
  | case2 => cases hf
  | case3 p capacity hroom next hfailed hdone =>
    have hnext := h.advance hroom
    cases hf
    rw [← hnext.size_eq]
    exact Nat.lt_of_lt_of_le hdone.2 hnext.capacity_le
  | case4 p capacity hroom next hfailed hdone hlt ih => exact ih (h.advance hroom) hf
  | case5 => cases hf

end Progress

/-- A message is shorter than the largest buffer. -/
theorem length_lt_of_inflate {i i' : Inflater} {payload plain : Bytes}
    (h : i.inflate payload = (.ok plain, i')) : plain.length < capacityLimit := by
  refine Progress.length_lt_of_finish ⟨rfl, ?_⟩ h
  show firstCapacity payload.length ≤ capacityLimit
  unfold firstCapacity capacityLimit
  omega

end Switchyard.Inflater
