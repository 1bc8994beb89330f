/-!
# Byte strings

A byte string is a list of bytes, first byte first. Numbers of a fixed width are written in
base 256, most significant byte first (`Bytes.ofNat`), and read back by `Bytes.toNat`; the
round trip is `Bytes.toNat_ofNat`. Hexadecimal text has two lowercase digits for each byte.
-/

namespace Switchyard

/-- A byte string, first byte first. -/
abbrev Bytes := List UInt8

namespace Bytes

/-! ### Numbers in base 256 -/

/-- The number that `bs` writes in base 256, most significant byte first. -/
def toNat (bs : Bytes) : Nat :=
  bs.foldl (fun n b => 256 * n + b.toNat) 0

/-- The last `k` digits of `n` in base 256, most significant first. -/
def ofNat : Nat → Nat → Bytes
  | 0, _ => []
  | k + 1, n => ofNat k (n / 256) ++ [UInt8.ofNat n]

@[simp] theorem length_ofNat (k n : Nat) : (ofNat k n).length = k := by
  induction k generalizing n with
  | zero => rfl
  | succ k ih => simp [ofNat, ih]

@[simp] theorem toNat_nil : toNat [] = 0 := rfl

theorem toNat_concat (bs : Bytes) (b : UInt8) : toNat (bs ++ [b]) = 256 * toNat bs + b.toNat := by
  simp [toNat, List.foldl_append]

/-- Writing `k` digits and reading them back keeps `n` modulo the `k`-th power of 256. -/
theorem toNat_ofNat (k n : Nat) : toNat (ofNat k n) = n % Nat.pow 256 k := by
  induction k generalizing n with
  | zero => exact (Nat.mod_one n).symm
  | succ k ih =>
    rw [ofNat, toNat_concat, ih, UInt8.toNat_ofNat']
    have hp : Nat.pow 256 (k + 1) = 256 * Nat.pow 256 k := Nat.mul_comm _ _
    have hm : n % (256 * Nat.pow 256 k) = n % 256 + 256 * (n / 256 % Nat.pow 256 k) :=
      Nat.mod_mul
    rw [hp, hm]
    omega

/-- The UTF-8 bytes of a text. -/
def ofText (cs : List Char) : Bytes :=
  cs.flatMap String.utf8EncodeChar

/-- The UTF-8 bytes of a string. -/
def ofString (s : String) : Bytes :=
  ofText s.toList

end Bytes

/-! ### Hexadecimal text -/

namespace Hex

/-- The value of a hexadecimal digit of either case. -/
def value? (c : Char) : Option Nat :=
  if '0' ≤ c ∧ c ≤ '9' then some (c.toNat - '0'.toNat)
  else if 'a' ≤ c ∧ c ≤ 'f' then some (c.toNat - 'a'.toNat + 10)
  else if 'A' ≤ c ∧ c ≤ 'F' then some (c.toNat - 'A'.toNat + 10)
  else none

/-- The two lowercase digits of a byte. -/
def ofByte (b : UInt8) : List Char :=
  [Nat.digitChar (b.toNat / 16), Nat.digitChar (b.toNat % 16)]

/-- Two lowercase digits for each byte. -/
def encode (bs : Bytes) : List Char :=
  bs.flatMap ofByte

theorem length_encode (bs : Bytes) : (encode bs).length = 2 * bs.length := by
  induction bs with
  | nil => rfl
  | cons b bs ih =>
    simp only [encode, List.flatMap_cons, List.length_append] at ih ⊢
    simp only [ofByte, List.length_cons, List.length_nil, ih]
    omega

/-- The byte with these two digits. -/
def byte? (hi lo : Char) : Option UInt8 := do
  let h ← value? hi
  let l ← value? lo
  return UInt8.ofNat (16 * h + l)

/-- Reads pairs of digits of either case, in order; `acc` holds the bytes read, last first. -/
def decodeFrom (acc : Bytes) : List Char → Option Bytes
  | [] => some acc.reverse
  | [_] => none
  | hi :: lo :: rest =>
    match byte? hi lo with
    | some b => decodeFrom (b :: acc) rest
    | none => none

/-- The bytes that a text of hexadecimal digit pairs writes. -/
def decode? (cs : List Char) : Option Bytes :=
  decodeFrom [] cs

end Hex

end Switchyard
