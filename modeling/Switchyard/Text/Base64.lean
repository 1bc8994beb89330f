import Switchyard.Bytes

/-!
# Base64

The standard alphabet with padding (RFC 4648, section 4). Three bytes become four characters;
one or two bytes at the end become two or three characters and padding. `decode?` reads the
strict form back.
-/

namespace Switchyard.Base64

/-- The alphabet, in the order of the values. -/
def alphabet : List Char :=
  "ABCDEFGHIJKLMNOPQRSTUVWXYZabcdefghijklmnopqrstuvwxyz0123456789+/".toList

/-- The character for a six-bit value. -/
def char (n : Nat) : Char :=
  alphabet.getD n '='

/-- The value of a character of the alphabet. -/
def value? (c : Char) : Option Nat :=
  if 'A' ≤ c ∧ c ≤ 'Z' then some (c.toNat - 'A'.toNat)
  else if 'a' ≤ c ∧ c ≤ 'z' then some (c.toNat - 'a'.toNat + 26)
  else if '0' ≤ c ∧ c ≤ '9' then some (c.toNat - '0'.toNat + 52)
  else if c = '+' then some 62
  else if c = '/' then some 63
  else none

/-- As `encode`, after the characters in `acc`, which stand last first. -/
def encodeFrom (acc : List Char) : Bytes → List Char
  | [] => acc.reverse
  | [a] =>
    let n := a.toNat * 16
    ('=' :: '=' :: char (n % 64) :: char (n / 64) :: acc).reverse
  | [a, b] =>
    let n := (a.toNat * 256 + b.toNat) * 4
    ('=' :: char (n % 64) :: char (n / 64 % 64) :: char (n / 4096) :: acc).reverse
  | a :: b :: c :: rest =>
    let n := (a.toNat * 256 + b.toNat) * 256 + c.toNat
    encodeFrom
      (char (n % 64) :: char (n / 64 % 64) :: char (n / 4096 % 64) :: char (n / 262144) :: acc) rest

/-- The padded text for a byte string. -/
def encode (bs : Bytes) : List Char :=
  encodeFrom [] bs

/-- As `decode?`, after the bytes in `acc`, which stand last first. -/
def decodeFrom (acc : Bytes) : List Char → Option Bytes
  | [] => some acc.reverse
  | [w, x, '=', '='] => do
    let n := (← value? w) * 64 + (← value? x)
    if n % 16 = 0 then some (UInt8.ofNat (n / 16) :: acc).reverse else none
  | [w, x, y, '='] => do
    let n := ((← value? w) * 64 + (← value? x)) * 64 + (← value? y)
    if n % 4 = 0 then some (UInt8.ofNat (n / 4) :: UInt8.ofNat (n / 1024) :: acc).reverse else none
  | w :: x :: y :: z :: rest => do
    let n := (((← value? w) * 64 + (← value? x)) * 64 + (← value? y)) * 64 + (← value? z)
    decodeFrom (UInt8.ofNat n :: UInt8.ofNat (n / 256) :: UInt8.ofNat (n / 65536) :: acc) rest
  | _ => none

/-- The bytes that a padded text stands for; unused bits have to be zero. -/
def decode? (cs : List Char) : Option Bytes :=
  decodeFrom [] cs

end Switchyard.Base64
