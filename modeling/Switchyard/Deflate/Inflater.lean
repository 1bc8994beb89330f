import Switchyard.Deflate.Decoder

/-!
# Inflating messages

The messages of a client are parts of one compressed stream; after each of them four bytes are left
out, which `Inflater.inflate` puts back (RFC 7692, section 7.2.2). A stream may end within a message,
and the next one begins behind it. The message is written to a buffer that grows when it is full; a
message that fills a buffer of 16 MiB or more is refused.
-/

namespace Switchyard

open Deflate

/-- The greatest length of a frame or message. -/
def maxMessage : Nat := 16 * 1024 * 1024

/-- Why a message cannot be inflated. -/
inductive InflateError where
  /-- The message is too long. -/
  | tooLarge
  /-- The stream is not well formed. -/
  | corrupt
  /-- The decoder does not get on. -/
  | stalled
  deriving DecidableEq, Repr

/-- A decoder and the bytes it has written that found no room in a buffer. -/
structure Inflater where
  decoder : Decoder
  undelivered : Bytes
  deriving DecidableEq

namespace Inflater

/-- The inflater of a client that has not sent anything. -/
def start : Inflater :=
  ⟨.start, []⟩

/-- What filling a buffer comes to. -/
structure Filling where
  inflater : Inflater
  /-- The bytes for the buffer. -/
  delivered : Bytes
  /-- The input that was not read. -/
  rest : Bytes

/-- The stream has ended and all its bytes are delivered. -/
def hasEnded (i : Inflater) : Bool :=
  i.decoder.phase == .ended && i.undelivered.isEmpty

/-- The stream is not well formed. -/
def hasFailed (i : Inflater) : Bool :=
  i.decoder.phase == .failed

/-- Decodes page by page until the input is used up, the buffer is full or the stream ends. -/
def decode (d : Decoder) (input : Bytes) (room : Nat) : Filling :=
  let run := d.run input
  let delivered := run.written.take room
  let undelivered := run.written.drop room
  let left := room - delivered.length
  if run.rest = [] ∨ left = 0 ∨ undelivered ≠ [] ∨ run.decoder.phase.isFinal then
    ⟨⟨run.decoder, undelivered⟩, delivered, run.rest⟩
  else if _h : left < room then
    let more := decode run.decoder run.rest left
    { more with delivered := delivered ++ more.delivered }
  else ⟨⟨run.decoder, undelivered⟩, delivered, run.rest⟩
termination_by room
decreasing_by exact _h

/-- Fills a buffer that has room for so many bytes. Bytes that found no room before come first, and
then nothing is read. -/
def fill (i : Inflater) (input : Bytes) (room : Nat) : Filling :=
  if i.undelivered ≠ [] ∧ ¬ i.hasFailed then
    ⟨{ i with undelivered := i.undelivered.drop room }, i.undelivered.take room, input⟩
  else decode i.decoder input room

/-- The bytes that senders leave out after each message. -/
def tail : Bytes := [0x00, 0x00, 0xFF, 0xFF]

/-- The size of the first buffer for a message of `n` compressed bytes. -/
def firstCapacity (n : Nat) : Nat :=
  min (max (4 * n) 1024) maxMessage

/-- The size of the buffer after one of `n` bytes is full. -/
def nextCapacity (n : Nat) : Nat :=
  max (2 * n) (n + max 1024 (min n (maxMessage - n)))

/-- No buffer is larger. -/
def capacityLimit : Nat := 2 * maxMessage + 1024

/-- A message in the midst of being inflated. -/
structure Progress where
  inflater : Inflater
  /-- The input that is left. -/
  rest : Bytes
  /-- What was delivered, last part first. -/
  parts : List Bytes
  /-- How many bytes were delivered. -/
  size : Nat
  /-- The size of the buffer. -/
  capacity : Nat

/-- The capacity for the next bytes; none if the buffer must not grow. -/
def Progress.room? (p : Progress) : Option Nat :=
  if p.size < p.capacity then some p.capacity
  else if maxMessage ≤ p.size then none
  else some (nextCapacity p.size)

/-- What is left to do at most: input to read and buffer to fill. -/
def Progress.remaining (p : Progress) : Nat :=
  p.rest.length + (capacityLimit - p.size)

/-- Fills the buffer again. -/
def Progress.advance (p : Progress) (capacity : Nat) : Progress :=
  let filling := p.inflater.fill p.rest (capacity - p.size)
  { inflater := if filling.inflater.hasEnded then .start else filling.inflater
    rest := filling.rest
    parts := filling.delivered :: p.parts
    size := p.size + filling.delivered.length
    capacity }

/-- Fills and enlarges the buffer until all input is read and some of the buffer is left over. -/
def Progress.finish (p : Progress) : Except InflateError Bytes × Inflater :=
  match p.room? with
  | none => (.error .tooLarge, p.inflater)
  | some capacity =>
    let next := p.advance capacity
    if next.inflater.hasFailed then (.error .corrupt, next.inflater)
    else if next.rest = [] ∧ next.size < next.capacity then
      (.ok next.parts.reverse.flatten, next.inflater)
    else if _h : next.remaining < p.remaining then next.finish
    else (.error .stalled, next.inflater)
termination_by p.remaining
decreasing_by exact _h

/-- Inflates the payload of a message. The inflater that results is the one for the next message,
also after an error. -/
def inflate (i : Inflater) (payload : Bytes) : Except InflateError Bytes × Inflater :=
  Progress.finish
    { inflater := i
      rest := payload ++ tail
      parts := []
      size := 0
      capacity := firstCapacity payload.length }

end Inflater

end Switchyard
