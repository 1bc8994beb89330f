import Switchyard.Tunnel.Request

/-!
# Reading a header

A header is read field by field. The reader knows how many bytes it has read and what is left, so
that a missing byte can be reported with the place where it was wanted. Fields are taken whole: a
reader that fails has read nothing of the field.
-/

namespace Switchyard.Header

/-- How far a message has been read. -/
structure Position where
  /-- The number of bytes read. -/
  offset : Nat
  /-- The bytes after them. -/
  rest : Bytes
  deriving DecidableEq, Repr

/-- The position before the first byte. -/
def Position.start (message : Bytes) : Position :=
  ⟨0, message⟩

/-- Reads a field, or says why the message does not fit. -/
abbrev Reader (α : Type) := StateT Position (Except Refusal) α

/-- The next `n` bytes. -/
def bytes (n : Nat) : Reader Bytes := fun p =>
  if n ≤ p.rest.length then .ok (p.rest.take n, ⟨p.offset + n, p.rest.drop n⟩)
  else .error (.truncated p.offset n p.rest.length)

/-- The next byte. -/
def byte : Reader UInt8 := fun p =>
  match p.rest with
  | b :: rest => .ok (b, ⟨p.offset + 1, rest⟩)
  | [] => .error (.truncated p.offset 1 0)

/-- The number in base 256 that the next two bytes write. -/
def uint16 : Reader UInt16 := do
  return UInt16.ofNat (Bytes.toNat (← bytes 2))

/-- Ends the reading with a refusal unless the condition holds. -/
def require (condition : Bool) (r : Refusal) : Reader Unit :=
  if condition then pure () else throw r

/-- Carriage return and line feed. -/
def lineEnd : Bytes := [0x0D, 0x0A]

/-- Skips one line end, if one comes next. -/
def skipLineEnd : Reader Unit := fun p =>
  match p.rest with
  | 0x0D :: 0x0A :: rest => .ok ((), ⟨p.offset + 2, rest⟩)
  | _ => .ok ((), p)

/-- The byte values that a scheme gives to the kinds of address. -/
structure AddressKinds where
  ipv4 : UInt8
  domain : UInt8
  ipv6 : UInt8

/-- A host of the kind that `kind` announces; a byte before a name gives its length. -/
def host (kinds : AddressKinds) (kind : UInt8) : Reader Host :=
  if kind = kinds.ipv4 then do
    return .ipv4 (← bytes 4)
  else if kind = kinds.domain then do
    let n ← byte
    return .domain (← bytes n.toNat)
  else if kind = kinds.ipv6 then do
    return .ipv6 (← bytes 16)
  else throw (.addressKind kind)

/-- All bytes that are left. -/
def rest : Reader Bytes := fun p =>
  .ok (p.rest, ⟨p.offset + p.rest.length, []⟩)

/-- What a reader makes of a message. -/
def run {α : Type} (reader : Reader α) (message : Bytes) : Except Refusal α :=
  (reader (.start message)).map Prod.fst

end Switchyard.Header
