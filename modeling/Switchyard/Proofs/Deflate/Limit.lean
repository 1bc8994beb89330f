import Mathlib.Data.Nat.Prime.Basic
import Switchyard.Proofs.Deflate.Messages

/-!
# The size of a message

Which inflated messages are too long. The buffer is looked at only when it is full, and it doubles, so
the size that counts is not `maxMessage`: it is the first capacity on the way from `firstCapacity` that
is no smaller (`sizeLimit_eq`). A message is given exactly when it is shorter (`inflate_within_limit`),
and messages of more than `maxMessage` bytes are among those (`overlong_zeros`).
-/

namespace Switchyard.Inflater

open Deflate

/-! ### Capacities -/

theorem maxMessage_eq : maxMessage = 2 ^ 24 := by decide

theorem le_firstCapacity (n : Nat) : 1024 ≤ firstCapacity n := by
  unfold firstCapacity maxMessage
  omega

theorem firstCapacity_le (n : Nat) : firstCapacity n ≤ maxMessage :=
  Nat.min_le_right _ _

variable {c : Nat}

/-- From 1024 bytes on a buffer doubles. -/
theorem nextCapacity_eq (h : 1024 ≤ c) : nextCapacity c = 2 * c := by
  unfold nextCapacity
  omega

/-- A buffer doubles until it is no smaller than `maxMessage`. -/
theorem finalCapacity_eq (h : 1024 ≤ c) :
    ∃ k, finalCapacity c = c * 2 ^ k ∧ ∀ j < k, c * 2 ^ j < maxMessage := by
  induction c using finalCapacity.induct with
  | case1 c hlt ih =>
    have hdouble := nextCapacity_eq h
    obtain ⟨k, hk, hbefore⟩ := ih (by omega)
    rw [finalCapacity_nextCapacity hlt, hdouble] at hk
    refine ⟨k + 1, ?_, ?_⟩
    · rw [hk, Nat.pow_succ']
      ac_rfl
    · intro j hj
      cases j with
      | zero => simpa using hlt
      | succ j =>
        have hj' := hbefore j (Nat.lt_of_succ_lt_succ hj)
        rw [hdouble] at hj'
        rw [Nat.pow_succ', ← Nat.mul_assoc, Nat.mul_comm c 2]
        exact hj'
  | case2 c hle =>
    refine ⟨0, ?_, fun j hj => absurd hj (Nat.not_lt_zero j)⟩
    rw [finalCapacity_of_le (Nat.not_lt.1 hle), Nat.pow_zero, Nat.mul_one]

theorem finalCapacity_lt (h : 1024 ≤ c) (hc : c ≤ maxMessage) : finalCapacity c < 2 * maxMessage := by
  obtain ⟨k, hk, hbefore⟩ := finalCapacity_eq h
  rw [hk]
  cases k with
  | zero =>
    have hpos : 0 < maxMessage := by decide
    omega
  | succ k =>
    have hlast := hbefore k (Nat.lt_succ_self k)
    calc c * 2 ^ (k + 1) = 2 * (c * 2 ^ k) := by rw [Nat.pow_succ']; ac_rfl
      _ < 2 * maxMessage := by omega

/-- Doubling meets `maxMessage`, which is a power of two, only from a power of two. -/
theorem finalCapacity_eq_maxMessage_iff (h : 1024 ≤ c) (hc : c ≤ maxMessage) :
    finalCapacity c = maxMessage ↔ ∃ e, c = 2 ^ e := by
  obtain ⟨k, hk, hbefore⟩ := finalCapacity_eq h
  constructor
  · intro hmax
    have hdvd : c ∣ 2 ^ 24 := ⟨2 ^ k, by rw [← maxMessage_eq, ← hmax, hk]⟩
    obtain ⟨e, -, he⟩ := (Nat.dvd_prime_pow Nat.prime_two).1 hdvd
    exact ⟨e, he⟩
  · rintro ⟨e, rfl⟩
    have hle := maxMessage_le_finalCapacity (2 ^ e)
    rw [hk, ← Nat.pow_add, maxMessage_eq, Nat.pow_le_pow_iff_right (by decide)] at hle
    have hge : e + k ≤ 24 := by
      cases k with
      | zero =>
        rwa [maxMessage_eq, Nat.pow_le_pow_iff_right (by decide)] at hc
      | succ k =>
        have hlast := hbefore k (Nat.lt_succ_self k)
        rw [← Nat.pow_add, maxMessage_eq, Nat.pow_lt_pow_iff_right (by decide)] at hlast
        omega
    rw [hk, ← Nat.pow_add, Nat.le_antisymm hge hle, maxMessage_eq]

/-- The first capacity is four times the payload, within bounds that are powers of two. -/
theorem firstCapacity_eq_two_pow_iff (n : Nat) :
    (∃ e, firstCapacity n = 2 ^ e) ↔ n ≤ 256 ∨ maxMessage ≤ 4 * n ∨ ∃ e, n = 2 ^ e := by
  by_cases hsmall : n ≤ 256
  · have hfirst : firstCapacity n = 2 ^ 10 := by
      unfold firstCapacity maxMessage
      omega
    exact iff_of_true ⟨10, hfirst⟩ (.inl hsmall)
  by_cases hlarge : maxMessage ≤ 4 * n
  · have hfirst : firstCapacity n = 2 ^ 24 := by
      unfold firstCapacity
      rw [← maxMessage_eq]
      omega
    exact iff_of_true ⟨24, hfirst⟩ (.inr (.inl hlarge))
  have hfirst : firstCapacity n = 4 * n := by
    unfold firstCapacity
    omega
  simp only [hfirst, hsmall, hlarge, false_or]
  constructor
  · rintro ⟨e, he⟩
    have hdvd : n ∣ 2 ^ e := ⟨4, by rw [← he, Nat.mul_comm]⟩
    obtain ⟨e', -, he'⟩ := (Nat.dvd_prime_pow Nat.prime_two).1 hdvd
    exact ⟨e', he'⟩
  · rintro ⟨e, rfl⟩
    exact ⟨e + 2, by rw [Nat.pow_add, Nat.mul_comm]⟩

theorem sizeLimit_eq (n : Nat) :
    ∃ k, sizeLimit n = firstCapacity n * 2 ^ k ∧ ∀ j < k, firstCapacity n * 2 ^ j < maxMessage :=
  finalCapacity_eq (le_firstCapacity n)

theorem sizeLimit_eq_maxMessage_iff (n : Nat) :
    sizeLimit n = maxMessage ↔ n ≤ 256 ∨ maxMessage ≤ 4 * n ∨ ∃ e, n = 2 ^ e := by
  rw [← firstCapacity_eq_two_pow_iff]
  exact finalCapacity_eq_maxMessage_iff (le_firstCapacity n) (firstCapacity_le n)

/-! ### Inflaters in use -/

/-- An inflater that has inflated some payloads, whatever these were. -/
inductive Reached : Inflater → Prop where
  | start : Reached .start
  | inflate {i : Inflater} (h : Reached i) (payload : Bytes) : Reached (i.inflate payload).2

theorem hasEnded_finish (p : Progress) (h : p.inflater.hasEnded = false) :
    p.finish.2.hasEnded = false := by
  fun_induction Progress.finish p with
  | case1 p hnone => exact h
  | case2 p capacity => exact p.hasEnded_advance capacity
  | case3 p capacity => exact p.hasEnded_advance capacity
  | case4 p capacity hroom next hfailed hdone hless ih => exact ih (p.hasEnded_advance capacity)
  | case5 p capacity => exact p.hasEnded_advance capacity

theorem Reached.hasEnded {i : Inflater} (h : Reached i) : i.hasEnded = false := by
  induction h with
  | start => rfl
  | inflate h payload ih => exact hasEnded_finish _ ih

/-! ### A message of zeros -/

def zeros (n : Nat) : Bytes :=
  List.replicate n 0

@[simp] theorem length_zeros (n : Nat) : (zeros n).length = n :=
  List.length_replicate

theorem zeros_append (m n : Nat) : zeros m ++ zeros n = zeros (m + n) :=
  List.replicate_append_replicate

/-- A copy of the longest length, from one byte back. -/
def copyBits : List Bool :=
  [true, true, false, false, false, true, false, true] ++ List.replicate 5 false

/-- Eight copies, which are a whole number of bytes. -/
def eightCopies : Bytes :=
  [0xA3, 0x60, 0x14, 0x8C, 0x82, 0x51, 0x30, 0x0A, 0x46, 0xC1, 0x28, 0x18, 0x05]

/-- A zero and `8 * k + 1` copies. -/
def zerosPayload (k : Nat) : Bytes :=
  [0x62, 0x18, 0x05] ++ (List.replicate k eightCopies).flatten ++ [0x00, 0x00]

theorem length_zerosPayload (k : Nat) : (zerosPayload k).length = 13 * k + 5 := by
  simp [zerosPayload, eightCopies]
  omega

theorem bitsOf_copies (k : Nat) :
    bitsOf (List.replicate k eightCopies).flatten = (List.replicate (8 * k) copyBits).flatten := by
  induction k with
  | zero => rfl
  | succ k ih =>
    have hsplit : 8 * (k + 1) = 8 + 8 * k := by omega
    rw [List.replicate_succ, List.flatten_cons, bitsOf_append, ih, hsplit,
      ← List.replicate_append_replicate, List.flatten_append]
    rfl

theorem copied_zeros (m n : Nat) : copied (zeros (m + 1)) 1 n = zeros n := by
  induction n generalizing m with
  | zero => rfl
  | succ n ih =>
    have hlast : (zeros (m + 1)).getD ((zeros (m + 1)).length - 1) 0 = 0 := by
      simp [zeros]
    have hmore : zeros (m + 1) ++ [0] = zeros (m + 1 + 1) := zeros_append (m + 1) 1
    show (zeros (m + 1)).getD ((zeros (m + 1)).length - 1) 0 ::
      copied (zeros (m + 1) ++ [(zeros (m + 1)).getD ((zeros (m + 1)).length - 1) 0]) 1 n = _
    rw [hlast, hmore, ih]
    rfl

/-- Copies from one byte back repeat a zero. -/
theorem elements_zeros {rest bits : List Bool} (m k : Nat)
    (h : Elements fixedLiterals fixedDistances rest (zeros (m + 1 + 258 * k)) bits []) :
    Elements fixedLiterals fixedDistances rest (zeros (m + 1))
      ((List.replicate k copyBits).flatten ++ bits) (zeros (258 * k)) := by
  have hlength : HasCode fixedLiterals (257 + 28)
      [true, true, false, false, false, true, false, true] :=
    ⟨8, by decide +kernel, by decide, by decide +kernel⟩
  have hdistance : HasCode fixedDistances 0 (List.replicate 5 false) :=
    ⟨5, by decide +kernel, by decide, by decide +kernel⟩
  induction k generalizing m with
  | zero => exact h
  | succ k ih =>
    have hback : 1 + 0 ≤ (zeros (m + 1)).length := by
      rw [length_zeros]
      omega
    have hmore : m + 1 + 258 * (k + 1) = m + 258 + 1 + 258 * k := by omega
    rw [hmore] at h
    have hrest : Elements fixedLiterals fixedDistances rest
        (zeros (m + 1) ++ copied (zeros (m + 1)) 1 258)
        ((List.replicate k copyBits).flatten ++ bits) (zeros (258 * k)) := by
      rw [copied_zeros, zeros_append]
      exact ih (m + 258) h
    have hcopy := Elements.copy hlength (by rfl) (by decide : 0 < 2 ^ 0) hdistance (by rfl)
      (by decide : 0 < 2 ^ 0) hback hrest
    have hout : copied (zeros (m + 1)) (1 + 0) (258 + 0) ++ zeros (258 * k) =
        zeros (258 * (k + 1)) := by
      rw [copied_zeros, zeros_append, Nat.mul_succ, Nat.add_comm]
    exact hout ▸ hcopy

theorem carries_zeros (k : Nat) :
    Carries [] (zerosPayload k) (zeros (258 * (8 * k + 1) + 1)) (zeros (258 * (8 * k + 1) + 1)) := by
  let padding := List.replicate 6 false
  let rest := [false] ++ numberBits 2 0 ++ padding
  have hzero : HasCode fixedLiterals (0 : UInt8).toNat
      [false, false, true, true, false, false, false, false] :=
    ⟨8, by decide +kernel, by decide, by decide +kernel⟩
  have hend : HasCode fixedLiterals 256 (List.replicate 7 false) :=
    ⟨7, by decide +kernel, by decide, by decide +kernel⟩
  have hcopies : Elements fixedLiterals fixedDistances rest (zeros (0 + 1)) _ _ :=
    elements_zeros 0 (8 * k + 1) (.endOfBlock hend)
  have hblock : Block false [] rest _ _ := .fixed (.literal hzero hcopies)
  have hbits : bitsOf (zerosPayload k) = [false] ++ numberBits 2 1 ++
      ([false, false, true, true, false, false, false, false] ++
        ((List.replicate (8 * k + 1) copyBits).flatten ++ (List.replicate 7 false ++ rest))) := by
    rw [zerosPayload, bitsOf_append, bitsOf_append, bitsOf_copies, List.replicate_succ,
      List.flatten_cons]
    have hfirst : bitsOf [0x62, 0x18, 0x05] = [false] ++ numberBits 2 1 ++
        [false, false, true, true, false, false, false, false] ++ copyBits := by decide
    have hlast : bitsOf [0x00, 0x00] = List.replicate 7 false ++ rest := by decide
    rw [hfirst, hlast]
    simp only [List.append_assoc]
  refine ⟨padding, by decide, ?_⟩
  rw [hbits]
  have hblocks := Blocks.block hblock .done
  rw [List.append_nil] at hblocks
  exact hblocks

/-! ### Messages that are too long -/

/-- **The size of a message** counts against the capacity at which its buffer stops growing: whatever
state an inflater is in, a message that a payload completes there is given if it is shorter than that
capacity, and is too long otherwise. The capacity is at least `maxMessage` and less than twice as much.
It is `maxMessage` itself only for some lengths of the payload, and then a message of just so many
bytes is too long. -/
theorem inflate_within_limit {i : Inflater} (hi : Reached i) {history payload message : Bytes}
    (h : i.Owes history (payload ++ tail) message) :
    (i.inflate payload).1 =
        (if message.length < sizeLimit payload.length then .ok message else .error .tooLarge) ∧
      (message.length < sizeLimit payload.length → (i.inflate payload).2.Holds history) ∧
      maxMessage ≤ sizeLimit payload.length ∧ sizeLimit payload.length < 2 * maxMessage ∧
      (∃ k, sizeLimit payload.length = firstCapacity payload.length * 2 ^ k ∧
        ∀ j < k, firstCapacity payload.length * 2 ^ j < maxMessage) ∧
      (sizeLimit payload.length = maxMessage ↔
        payload.length ≤ 256 ∨ maxMessage ≤ 4 * payload.length ∨ ∃ e, payload.length = 2 ^ e) := by
  have hlower : maxMessage ≤ sizeLimit payload.length := maxMessage_le_finalCapacity _
  have hupper : sizeLimit payload.length < 2 * maxMessage :=
    finalCapacity_lt (le_firstCapacity _) (firstCapacity_le _)
  have hequal := sizeLimit_eq_maxMessage_iff payload.length
  obtain ⟨hlt, i', hgiven, hholds⟩ | ⟨hle, hrefused⟩ := inflate_of_owes hi.hasEnded h
  · rw [hgiven, if_pos hlt]
    exact ⟨rfl, fun _ => hholds, hlower, hupper, sizeLimit_eq _, hequal⟩
  · rw [hrefused, if_neg (Nat.not_lt.2 hle)]
    exact ⟨rfl, fun hlt => absurd hlt (Nat.not_lt.2 hle), hlower, hupper, sizeLimit_eq _, hequal⟩

theorem inflate_within_limit_of_zeros :
    let message := zeros 259
    Reached .start ∧ Owes .start message (zerosPayload 0 ++ tail) message ∧
      (inflate .start (zerosPayload 0)).1 = .ok message := by
  intro message
  have howes : Owes .start message (zerosPayload 0 ++ tail) message :=
    holds_start.owes (carries_zeros 0)
  have hlt : message.length < sizeLimit (zerosPayload 0).length := by
    refine Nat.lt_of_lt_of_le ?_ (maxMessage_le_finalCapacity _)
    rw [length_zeros]
    decide
  have hresult := (inflate_within_limit .start howes).1
  rw [if_pos hlt] at hresult
  exact ⟨.start, howes, hresult⟩

/-- Zeros of more than `maxMessage` bytes, in a payload for which the buffer stops growing at
27054592 bytes. -/
theorem overlong_zeros :
    let message := zeros 16778515
    (zerosPayload 8129).length = 105682 ∧ Carries [] (zerosPayload 8129) message message ∧
      maxMessage < message.length ∧ (inflate .start (zerosPayload 8129)).1 = .ok message := by
  intro message
  have hcarries : Carries [] (zerosPayload 8129) message message := carries_zeros 8129
  have hlength : (zerosPayload 8129).length = 105682 := length_zerosPayload 8129
  have hlimit : sizeLimit 105682 = 27054592 := by cbv
  have hlong : maxMessage < message.length := by
    rw [length_zeros]
    decide
  refine ⟨hlength, hcarries, hlong, ?_⟩
  obtain ⟨-, i, hgiven, -⟩ | ⟨hle, -⟩ := inflate_of_owes rfl (holds_start.owes hcarries)
  · rw [hgiven]
  · rw [hlength, hlimit, length_zeros] at hle
    exact absurd hle (by decide)

end Switchyard.Inflater
