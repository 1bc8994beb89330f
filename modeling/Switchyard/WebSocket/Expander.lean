import Switchyard.WebSocket.Frame

/-!
# Expanding compressed messages

A client that was allowed to compress sends compressed messages in frames of which the first has the
bit RSV1. The expander gathers the frames of such a message and puts out one plain frame with what
they inflate to; every other frame is put out as it is. Frames that come before one that cannot be
expanded are put out all the same.
-/

namespace Switchyard

/-- Why frames cannot be expanded. -/
inductive ExpandError where
  /-- A frame is too long. -/
  | frameTooLarge
  /-- A later frame of a compressed message claims to begin one. -/
  | compressedContinuation
  /-- A message begins before a compressed one has ended. -/
  | messageInsideMessage
  /-- The compressed parts of a message are too long. -/
  | messageTooLarge
  /-- A message cannot be inflated. -/
  | inflate (e : InflateError)
  deriving DecidableEq, Repr

/-- The wording of an error. -/
def ExpandError.message : ExpandError → String
  | frameTooLarge => "websocket frame too large"
  | compressedContinuation => "RSV1 set on a continuation frame"
  | messageInsideMessage => "new message inside a fragmented one"
  | messageTooLarge => "compressed message too large"
  | inflate .tooLarge => "inflated message too large"
  | inflate .corrupt => "deflate decompression error"
  | inflate .stalled => "deflate stream stalled"

/-- A compressed message of which frames are missing. -/
structure OpenMessage where
  /-- The opcode of its first frame. -/
  opcode : UInt8
  /-- The payloads so far, unmasked; last one first. -/
  parts : List Bytes
  /-- How many bytes they have. -/
  size : Nat
  deriving DecidableEq

/-- What is kept between frames. -/
structure Expander where
  inflater : Inflater
  /-- The compressed message that has begun. -/
  message : Option OpenMessage
  deriving DecidableEq

namespace Expander

/-- The expander of a client that has not sent anything. -/
def start : Expander :=
  ⟨.start, none⟩

/-- A frame belongs to a compressed message, or is no part of one, or may not come here. -/
def compressed? (x : Expander) (h : FrameHeader) : Except ExpandError Bool :=
  if Opcode.isControl h.opcode then .ok false
  else if x.message.isSome then
    if h.opcode ≠ Opcode.continuation then .error .messageInsideMessage
    else if h.rsv1 then .error .compressedContinuation
    else .ok true
  else .ok (h.rsv1 && h.opcode != Opcode.continuation)

/-- The message with one more payload. -/
def extend (x : Expander) (h : FrameHeader) (payload : Bytes) : OpenMessage :=
  let m := x.message.getD ⟨h.opcode, [], 0⟩
  ⟨m.opcode, payload :: m.parts, m.size + payload.length⟩

/-- Expands a frame of a compressed message. -/
def gather (x : Expander) (h : FrameHeader) (payload : Bytes) :
    Except ExpandError Bytes × Expander :=
  let m := x.extend h payload
  if maxMessage < m.size then
    (.error .messageTooLarge, { x with message := some (x.message.getD ⟨h.opcode, [], 0⟩) })
  else if h.final then
    match x.inflater.inflate m.parts.reverse.flatten with
    | (.ok plain, inflater) => (.ok (maskedFrame m.opcode plain), ⟨inflater, none⟩)
    | (.error e, inflater) => (.error (.inflate e), ⟨inflater, none⟩)
  else (.ok [], { x with message := some m })

/-- Expands a frame: what is put out for it, or why it cannot be. -/
def frame (x : Expander) (h : FrameHeader) (bytes : Bytes) :
    Except ExpandError Bytes × Expander :=
  match x.compressed? h with
  | .error e => (.error e, x)
  | .ok false => (.ok bytes, x)
  | .ok true => x.gather h (FrameHeader.unmask h.key (bytes.drop h.length))

end Expander

/-- What expanding a byte string comes to. -/
structure Expansion where
  expander : Expander
  /-- The bytes put out. -/
  output : Bytes
  /-- The bytes behind the last frame that was looked at. -/
  rest : Bytes
  /-- Why the expansion stopped before an incomplete frame. -/
  error : Option ExpandError

namespace Expander

/-- Expands all complete frames of `raw`, behind the outputs in `done`, which stand last first. -/
def processFrom (x : Expander) (done : List Bytes) (raw : Bytes) : Expansion :=
  match _h : FrameHeader.read raw with
  | .incomplete => ⟨x, done.reverse.flatten, raw, none⟩
  | .tooLarge => ⟨x, done.reverse.flatten, raw, some .frameTooLarge⟩
  | .header h =>
    if _hl : raw.length < h.total then ⟨x, done.reverse.flatten, raw, none⟩
    else
      match x.frame h (raw.take h.total) with
      | (.ok output, x) => processFrom x (output :: done) (raw.drop h.total)
      | (.error e, x) => ⟨x, done.reverse.flatten, raw.drop h.total, some e⟩
termination_by raw.length
decreasing_by
  have hpos := FrameHeader.total_pos_of_read _h
  simp only [List.length_drop]
  omega

/-- Expands all complete frames of a byte string. -/
def process (x : Expander) (raw : Bytes) : Expansion :=
  x.processFrom [] raw

end Expander

end Switchyard
