/-!
# Decimal numerals

A numeral is an optional plus sign and at least one ASCII digit. It is read only when its value
stays below a bound, so that a numeral is accepted exactly when it names a number of the wanted
width. Leading zeros are allowed.
-/

namespace Switchyard.Numeral

/-- The value of an ASCII digit. -/
def digit? (c : Char) : Option Nat :=
  if '0' ≤ c ∧ c ≤ '9' then some (c.toNat - '0'.toNat) else none

/-- The value of a run of digits after a part of value `n`; none if a digit is none or the value
reaches `bound`. -/
def digitsFrom (bound : Nat) (n : Nat) : List Char → Option Nat
  | [] => some n
  | c :: cs =>
    match digit? c with
    | none => none
    | some d => if 10 * n + d < bound then digitsFrom bound (10 * n + d) cs else none

/-- The value of a non-empty run of digits below `bound`. -/
def digits? (bound : Nat) : List Char → Option Nat
  | [] => none
  | c :: cs => digitsFrom bound 0 (c :: cs)

/-- The value of an unsigned numeral below `bound`; a plus sign may stand before the digits. -/
def below? (bound : Nat) : List Char → Option Nat
  | '+' :: cs => digits? bound cs
  | cs => digits? bound cs

/-- A 16-bit number. -/
def uint16? (cs : List Char) : Option UInt16 :=
  (below? UInt16.size cs).map UInt16.ofNat

/-- The digits of `n` in base ten. -/
def ofNat (n : Nat) : List Char :=
  Nat.toDigits 10 n

theorem digitsFrom_lt {bound n m : Nat} {cs : List Char} (h : digitsFrom bound n cs = some m)
    (hn : n < bound) : m < bound := by
  induction cs generalizing n with
  | nil => simp [digitsFrom] at h; omega
  | cons c cs ih =>
    simp only [digitsFrom] at h
    split at h
    · simp at h
    · split at h
      · next hlt => exact ih h hlt
      · simp at h

end Switchyard.Numeral
