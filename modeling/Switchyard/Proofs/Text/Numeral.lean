import Switchyard.Text.Numeral

/-!
# Numerals both ways

What `ofNat` writes is made of digits, and `digits?` reads the number back if it is below the bound.
The numerals that are read are all those that denote a number below the bound
(`below?_eq_some_iff`).
-/

namespace Switchyard.Numeral

theorem digit?_of_isDigit {c : Char} (h : c.isDigit = true) :
    digit? c = some (c.toNat - '0'.toNat) := by
  have hrange : '0' ≤ c ∧ c ≤ '9' := by
    unfold Char.isDigit at h
    obtain ⟨hlo, hhi⟩ := Bool.and_eq_true_iff.1 h
    exact ⟨of_decide_eq_true hlo, of_decide_eq_true hhi⟩
  exact if_pos hrange

theorem le_ofDigitChars (n : Nat) (cs : List Char) : n ≤ Nat.ofDigitChars 10 cs n := by
  induction cs generalizing n with
  | nil => exact Nat.le_refl n
  | cons c cs ih =>
    rw [Nat.ofDigitChars_cons]
    exact Nat.le_trans (by omega) (ih _)

/-- No part of a run of digits has a greater value than all of it. -/
theorem digitsFrom_eq {bound n : Nat} {cs : List Char} (hd : ∀ c ∈ cs, c.isDigit = true)
    (hlt : Nat.ofDigitChars 10 cs n < bound) :
    digitsFrom bound n cs = some (Nat.ofDigitChars 10 cs n) := by
  induction cs generalizing n with
  | nil => rfl
  | cons c cs ih =>
    rw [Nat.ofDigitChars_cons] at hlt ⊢
    have hpart := Nat.lt_of_le_of_lt (le_ofDigitChars _ cs) hlt
    rw [digitsFrom, digit?_of_isDigit (hd c List.mem_cons_self)]
    dsimp only
    rw [if_pos hpart]
    exact ih (fun c hc => hd c (List.mem_cons_of_mem _ hc)) hlt

theorem isDigit_of_mem_ofNat {n : Nat} {c : Char} (h : c ∈ ofNat n) : c.isDigit = true :=
  Nat.isDigit_of_mem_toDigits (by decide) (by decide) h

theorem digits?_ofNat {bound n : Nat} (h : n < bound) : digits? bound (ofNat n) = some n := by
  have hvalue : Nat.ofDigitChars 10 (ofNat n) 0 = n :=
    Nat.ofDigitChars_toDigits (by decide) (by decide)
  have hread : digitsFrom bound 0 (ofNat n) = some n := by
    rw [digitsFrom_eq (fun _ => isDigit_of_mem_ofNat) (hvalue.symm ▸ h), hvalue]
  cases hcs : ofNat n with
  | nil => exact absurd hcs Nat.toDigits_ne_nil
  | cons c cs =>
    rw [hcs] at hread
    exact hread

/-! ### Which numerals are read -/

/-- A run of digits that has the value `n`; a plus sign may stand before it. -/
def Denotes (cs : List Char) (n : Nat) : Prop :=
  ∃ ds, (cs = ds ∨ cs = '+' :: ds) ∧ ds ≠ [] ∧ (∀ c ∈ ds, c.isDigit = true) ∧
    Nat.ofDigitChars 10 ds 0 = n

theorem isDigit_of_digit? {c : Char} {d : Nat} (h : digit? c = some d) : c.isDigit = true := by
  unfold digit? at h
  split at h
  · next hrange =>
    exact Bool.and_eq_true_iff.2 ⟨decide_eq_true hrange.1, decide_eq_true hrange.2⟩
  · cases h

theorem isDigit_of_digitsFrom {bound n m : Nat} {cs : List Char}
    (h : digitsFrom bound n cs = some m) : ∀ c ∈ cs, c.isDigit = true := by
  induction cs generalizing n with
  | nil => exact nofun
  | cons c cs ih =>
    rw [digitsFrom] at h
    cases hd : digit? c with
    | none => simp [hd] at h
    | some d =>
      simp only [hd] at h
      split at h
      · exact List.forall_mem_cons.2 ⟨isDigit_of_digit? hd, ih h⟩
      · cases h

theorem ofDigitChars_of_digitsFrom {bound n m : Nat} {cs : List Char}
    (h : digitsFrom bound n cs = some m) : Nat.ofDigitChars 10 cs n = m := by
  induction cs generalizing n with
  | nil => exact Option.some.inj h
  | cons c cs ih =>
    have hc := isDigit_of_digitsFrom h c List.mem_cons_self
    rw [digitsFrom, digit?_of_isDigit hc] at h
    dsimp only at h
    split at h
    · rw [Nat.ofDigitChars_cons]
      exact ih h
    · cases h

theorem digits?_eq_some_iff {bound n : Nat} (hbound : 0 < bound) {cs : List Char} :
    digits? bound cs = some n ↔ cs ≠ [] ∧ (∀ c ∈ cs, c.isDigit = true) ∧
      Nat.ofDigitChars 10 cs 0 = n ∧ n < bound := by
  cases cs with
  | nil => simp [digits?]
  | cons c cs =>
    rw [digits?]
    constructor
    · intro h
      exact ⟨List.cons_ne_nil c cs, isDigit_of_digitsFrom h, ofDigitChars_of_digitsFrom h,
        digitsFrom_lt h hbound⟩
    · rintro ⟨-, hd, rfl, hlt⟩
      exact digitsFrom_eq hd hlt

theorem below?_eq_some_iff {bound n : Nat} (hbound : 0 < bound) {cs : List Char} :
    below? bound cs = some n ↔ Denotes cs n ∧ n < bound := by
  constructor
  · intro h
    unfold below? at h
    split at h
    · next ds =>
      obtain ⟨hne, hd, hvalue, hlt⟩ := (digits?_eq_some_iff hbound).1 h
      exact ⟨⟨ds, .inr rfl, hne, hd, hvalue⟩, hlt⟩
    · obtain ⟨hne, hd, hvalue, hlt⟩ := (digits?_eq_some_iff hbound).1 h
      exact ⟨⟨_, .inl rfl, hne, hd, hvalue⟩, hlt⟩
  · rintro ⟨⟨ds, hcs, hne, hd, hvalue⟩, hlt⟩
    have hread := (digits?_eq_some_iff hbound).2 ⟨hne, hd, hvalue, hlt⟩
    rcases hcs with rfl | rfl
    · unfold below?
      split
      · exact absurd (hd '+' List.mem_cons_self) (by decide)
      · exact hread
    · exact hread

theorem uint16?_eq_some_iff {cs : List Char} {n : UInt16} :
    uint16? cs = some n ↔ Denotes cs n.toNat := by
  rw [uint16?, Option.map_eq_some_iff]
  constructor
  · rintro ⟨m, hm, rfl⟩
    obtain ⟨hdenotes, hlt⟩ := (below?_eq_some_iff (by decide)).1 hm
    rwa [UInt16.toNat_ofNat_of_lt' hlt]
  · intro h
    exact ⟨n.toNat, (below?_eq_some_iff (by decide)).2 ⟨h, n.toNat_lt_size⟩, n.ofNat_toNat⟩

theorem denotes_ofNat (n : Nat) : Denotes (ofNat n) n :=
  ⟨ofNat n, .inl rfl, Nat.toDigits_ne_nil, fun _ => isDigit_of_mem_ofNat,
    Nat.ofDigitChars_toDigits (by decide) (by decide)⟩

end Switchyard.Numeral
