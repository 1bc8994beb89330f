import Switchyard.Bytes

/-!
# Reading UTF-8

`Utf8.read` takes one character off the front of a byte string. When the bytes are no character,
it drops the longest prefix that could have begun one, and at least one byte: the unit that a
lenient reader replaces by U+FFFD. From it come a strict reader (`decode?`), a lenient one
(`lossy`) and a check that may be continued with more bytes (`advance`).
-/

namespace Switchyard.Utf8

/-- What stands at the front of a byte string. -/
inductive Front where
  /-- A character and the bytes after it. -/
  | char (c : Char) (rest : Bytes)
  /-- A part that begins no character, and the bytes after it. -/
  | broken (rest : Bytes)
  /-- The string ends inside a character. -/
  | cut
  deriving DecidableEq

/-- Reads `k` continuation bytes after a lead byte that gave the bits `value`. The first of them
has to lie between `lo` and `hi`, the others between `0x80` and `0xBF`. -/
def continuation : Nat → UInt8 → UInt8 → Nat → Bytes → Front
  | 0, _, _, value, bs => .char (Char.ofNat value) bs
  | _ + 1, _, _, _, [] => .cut
  | k + 1, lo, hi, value, b :: bs =>
    if lo ≤ b ∧ b ≤ hi then continuation k 0x80 0xBF (64 * value + (b.toNat - 0x80)) bs
    else .broken (b :: bs)

/-- Reads the character that begins with the byte `b`. The bounds on the second byte exclude
overlong forms, surrogates and values beyond U+10FFFF. -/
def read (b : UInt8) (bs : Bytes) : Front :=
  if b < 0x80 then .char (Char.ofNat b.toNat) bs
  else if b < 0xC2 then .broken bs
  else if b < 0xE0 then continuation 1 0x80 0xBF (b.toNat - 0xC0) bs
  else if b = 0xE0 then continuation 2 0xA0 0xBF 0 bs
  else if b = 0xED then continuation 2 0x80 0x9F 0xD bs
  else if b < 0xF0 then continuation 2 0x80 0xBF (b.toNat - 0xE0) bs
  else if b = 0xF0 then continuation 3 0x90 0xBF 0 bs
  else if b < 0xF4 then continuation 3 0x80 0xBF (b.toNat - 0xF0) bs
  else if b = 0xF4 then continuation 3 0x80 0x8F 4 bs
  else .broken bs

/-- The bytes after the front part; none are left after a cut. -/
def Front.rest : Front → Bytes
  | .char _ rest => rest
  | .broken rest => rest
  | .cut => []

theorem length_rest_continuation (k : Nat) (lo hi : UInt8) (value : Nat) (bs : Bytes) :
    (continuation k lo hi value bs).rest.length ≤ bs.length := by
  fun_induction continuation k lo hi value bs with
  | case1 => simp [Front.rest]
  | case2 => simp [Front.rest]
  | case3 k lo hi value b bs h ih => simp only [List.length_cons]; omega
  | case4 => simp [Front.rest]

/-- Reading from `b :: bs` leaves no more than `bs`. -/
theorem length_rest_read (b : UInt8) (bs : Bytes) : (read b bs).rest.length ≤ bs.length := by
  unfold read
  repeat' split
  all_goals first
    | exact length_rest_continuation ..
    | simp [Front.rest]

theorem length_lt_of_char {b : UInt8} {bs rest : Bytes} {c : Char}
    (h : read b bs = .char c rest) : rest.length < (b :: bs).length := by
  have hle := length_rest_read b bs
  rw [h] at hle
  simp only [Front.rest] at hle
  simp only [List.length_cons]
  omega

theorem length_lt_of_broken {b : UInt8} {bs rest : Bytes}
    (h : read b bs = .broken rest) : rest.length < (b :: bs).length := by
  have hle := length_rest_read b bs
  rw [h] at hle
  simp only [Front.rest] at hle
  simp only [List.length_cons]
  omega

/-! ### Whole texts -/

/-- The characters of `bs` after those in `acc`, which stand last first; none unless all of `bs`
is UTF-8. -/
def decodeFrom (acc : List Char) : Bytes → Option (List Char)
  | [] => some acc.reverse
  | b :: bs =>
    match _h : read b bs with
    | .char c rest => decodeFrom (c :: acc) rest
    | .broken _ => none
    | .cut => none
termination_by bs => bs.length
decreasing_by exact length_lt_of_char _h

/-- The text that `bs` encodes, if it is UTF-8. -/
def decode? (bs : Bytes) : Option (List Char) :=
  decodeFrom [] bs

/-- The character U+FFFD, which stands for bytes that are no character. -/
def replacement : Char := '\ufffd'

/-- As `lossy`, after the characters in `acc`, which stand last first. -/
def lossyFrom (acc : List Char) : Bytes → List Char
  | [] => acc.reverse
  | b :: bs =>
    match _h : read b bs with
    | .char c rest => lossyFrom (c :: acc) rest
    | .broken rest => lossyFrom (replacement :: acc) rest
    | .cut => (replacement :: acc).reverse
termination_by bs => bs.length
decreasing_by
  · exact length_lt_of_char _h
  · exact length_lt_of_broken _h

/-- The text of `bs`, with one U+FFFD for each maximal part that is no character. -/
def lossy (bs : Bytes) : List Char :=
  lossyFrom [] bs

/-! ### Texts that arrive in parts -/

/-- Checks that `bs` is UTF-8 up to a character that may be cut off at its end, and gives the
bytes of that character. -/
def advance (bs : Bytes) : Option Bytes :=
  match bs with
  | [] => some []
  | b :: bs =>
    match _h : read b bs with
    | .char _ rest => advance rest
    | .broken _ => none
    | .cut => some (b :: bs)
termination_by bs.length
decreasing_by exact length_lt_of_char _h

end Switchyard.Utf8
