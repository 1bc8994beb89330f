import Switchyard.Deflate.Inflater

/-!
# WebSocket frames

The frames of RFC 6455, section 5.2. `FrameHeader.read` reads a header off the front of a byte string
as soon as it is complete; it refuses payloads of more than `maxMessage` bytes. `maskedFrame` writes a
whole message as one frame whose key is zero, so that the payload stands as it is.
-/

namespace Switchyard

/-- The header of a frame. -/
structure FrameHeader where
  /-- This is the last frame of its message. -/
  final : Bool
  /-- The message is compressed; stands in its first frame. -/
  rsv1 : Bool
  rsv2 : Bool
  rsv3 : Bool
  opcode : UInt8
  /-- The four bytes with which the payload is masked. -/
  key : Option Bytes
  /-- How many bytes the header has. -/
  length : Nat
  /-- How many bytes follow it. -/
  payloadLength : Nat
  deriving DecidableEq, Repr

/-- What stands at the front of a byte string. -/
inductive HeaderRead where
  /-- The header is not complete. -/
  | incomplete
  /-- The header announces too long a payload. -/
  | tooLarge
  | header (h : FrameHeader)
  deriving DecidableEq, Repr

namespace Opcode

/-- A frame that goes on with a message. -/
def continuation : UInt8 := 0

def text : UInt8 := 1

def binary : UInt8 := 2

def close : UInt8 := 8

def ping : UInt8 := 9

def pong : UInt8 := 10

/-- Control frames may stand between the frames of a message. -/
def isControl (opcode : UInt8) : Bool :=
  8 ≤ opcode

end Opcode

namespace FrameHeader

/-- How many bytes of a header hold the length, besides the seven bits that are always there. -/
def extraLengthBytes (short : Nat) : Nat :=
  if short = 126 then 2 else if short = 127 then 8 else 0

/-- Reads a header. -/
def read : Bytes → HeaderRead
  | b0 :: b1 :: rest =>
    let masked := 128 ≤ b1.toNat
    let short := b1.toNat % 128
    let lengthBytes := extraLengthBytes short
    let keyBytes := if masked then 4 else 0
    let fields := rest.take (lengthBytes + keyBytes)
    if fields.length < lengthBytes + keyBytes then .incomplete
    else
      let payloadLength := if lengthBytes = 0 then short else Bytes.toNat (fields.take lengthBytes)
      if maxMessage < payloadLength then .tooLarge
      else .header {
        final := b0.toNat.testBit 7
        rsv1 := b0.toNat.testBit 6
        rsv2 := b0.toNat.testBit 5
        rsv3 := b0.toNat.testBit 4
        opcode := b0 % 16
        key := if masked then some (fields.drop lengthBytes) else none
        length := 2 + lengthBytes + keyBytes
        payloadLength }
  | _ => .incomplete

/-- The length of the whole frame. -/
def total (h : FrameHeader) : Nat :=
  h.length + h.payloadLength

/-- No frame is empty. -/
theorem total_pos_of_read {bs : Bytes} {h : FrameHeader} (hr : read bs = .header h) :
    0 < h.total := by
  unfold read at hr
  split at hr
  · dsimp only at hr
    repeat' split at hr
    all_goals first
      | contradiction
      | cases hr; simp only [total]; omega
  · cases hr

/-- A payload with its mask taken off or put on. -/
def unmask (key : Option Bytes) (payload : Bytes) : Bytes :=
  match key with
  | none => payload
  | some key => payload.mapIdx fun i b => b ^^^ key.getD (i % 4) 0

/-- The bytes of a length, and the seven bits that stand before them. -/
def lengthField (n : Nat) : Nat × Bytes :=
  if n < 126 then (n, [])
  else if n < 65536 then (126, Bytes.ofNat 2 n)
  else (127, Bytes.ofNat 8 n)

end FrameHeader

/-- A final frame with a key of zeros. -/
def maskedFrame (opcode : UInt8) (payload : Bytes) : Bytes :=
  let (short, lengthBytes) := FrameHeader.lengthField payload.length
  (0x80 ||| opcode) :: UInt8.ofNat (128 + short) :: lengthBytes ++ [0, 0, 0, 0] ++ payload

/-- A final frame without a key, as servers send them. -/
def plainFrame (opcode : UInt8) (payload : Bytes) : Bytes :=
  let (short, lengthBytes) := FrameHeader.lengthField payload.length
  (0x80 ||| opcode) :: UInt8.ofNat short :: lengthBytes ++ payload

end Switchyard
