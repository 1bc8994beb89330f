import Switchyard.Bytes

/-!
# Form encoding of a text

The serialisation of form data in URLs: ASCII letters, digits and `* - . _` stand for
themselves, a space becomes `+`, and any other byte a percent sign and two uppercase hexadecimal
digits. `decode?` reads it back.
-/

namespace Switchyard.FormUrl

/-- Stands for itself in form data. -/
def isPlain (b : UInt8) : Bool :=
  (0x30 ≤ b && b ≤ 0x39) || (0x41 ≤ b && b ≤ 0x5A) || (0x61 ≤ b && b ≤ 0x7A) ||
    b == 0x2A || b == 0x2D || b == 0x2E || b == 0x5F

/-- The uppercase hexadecimal digit of a value below 16. -/
def upperDigit (n : Nat) : Char :=
  (Nat.digitChar n).toUpper

/-- The characters for one byte. -/
def encodeByte (b : UInt8) : List Char :=
  if isPlain b then [Char.ofNat b.toNat]
  else if b = 0x20 then ['+']
  else ['%', upperDigit (b.toNat / 16), upperDigit (b.toNat % 16)]

/-- The form encoding of a byte string. -/
def encode (bs : Bytes) : List Char :=
  bs.flatMap encodeByte

/-- The bytes that form data stands for; only ASCII characters may occur. -/
def decode? : List Char → Option Bytes
  | [] => some []
  | '%' :: hi :: lo :: rest => do
    let b ← Hex.byte? hi lo
    return b :: (← decode? rest)
  | c :: rest =>
    if c = '+' then (decode? rest).map (0x20 :: ·)
    else if c ≠ '%' ∧ c.toNat < 128 then (decode? rest).map (UInt8.ofNat c.toNat :: ·)
    else none

end Switchyard.FormUrl
