import Switchyard.Proofs.Deflate.Grammar
import Switchyard.Proofs.WebSocket.WireFrame
import Switchyard.WebSocket.Receiver

/-!
# How clients send messages

All ways in which a client may put its messages on the wire (RFC 6455, section 5.4, and RFC 7692,
section 7.2.1). A message of data is one frame or is split into several, with control frames anywhere
between them; keys, the forms of lengths and the places where a message is split are free. Each
message of data may be compressed, which its first frame tells. `Sends` relates the messages, in the
order in which they are complete, to the frames.
-/

namespace Switchyard

namespace Message

/-- The message is sent as these bytes, in frames of which the first has this opcode. -/
inductive IsData : Message → UInt8 → Bytes → Prop where
  | binary (bs : Bytes) : IsData (binary bs) Opcode.binary bs
  | text (cs : List Char) : IsData (text cs) Opcode.text (Bytes.ofText cs)

/-- The message is sent as a control frame with this opcode and payload. What a close says counts as a
violation if its code may not be sent. -/
inductive IsControl : Message → UInt8 → Bytes → Prop where
  | ping (bs : Bytes) : IsControl (ping bs) Opcode.ping bs
  | pong (bs : Bytes) : IsControl (pong bs) Opcode.pong bs
  | close : IsControl (close none) Opcode.close []
  | closeWith (f : CloseFrame) : IsControl (close (some f.sanitize)) Opcode.close f.payload

end Message

namespace WireFrame

/-- A client may send the frame, with these parts. -/
structure IsSent (f : WireFrame) (final rsv1 : Bool) (opcode : UInt8) : Prop where
  final_eq : f.final = final
  rsv1_eq : f.rsv1 = rsv1
  rsv2_eq : f.rsv2 = false
  rsv3_eq : f.rsv3 = false
  opcode_eq : f.opcode = opcode
  masked : f.key.isSome = true

/-- A control frame, which is short and not split. -/
def Controls (f : WireFrame) (m : Message) : Prop :=
  ∃ opcode, m.IsControl opcode f.payload ∧ f.IsSent true false opcode ∧ f.payload.length ≤ 125

end WireFrame

/-- Frames that go on with a message up to its end, with control frames between them. -/
inductive Continues : Bytes → List Message → List WireFrame → Prop where
  | last {f : WireFrame} (hf : f.IsSent true false Opcode.continuation) : Continues f.payload [] [f]
  | next {f : WireFrame} {bs : Bytes} {controls : List Message} {fs : List WireFrame}
      (hf : f.IsSent false false Opcode.continuation) (h : Continues bs controls fs) :
      Continues (f.payload ++ bs) controls (f :: fs)
  | control {f : WireFrame} {m : Message} {bs : Bytes} {controls : List Message}
      {fs : List WireFrame} (hf : f.Controls m) (h : Continues bs controls fs) :
      Continues bs (m :: controls) (f :: fs)

/-- The frames of a message of data: a single one, or one that others go on with. -/
inductive Carried (compressed : Bool) (opcode : UInt8) :
    Bytes → List Message → List WireFrame → Prop where
  | whole {f : WireFrame} (hf : f.IsSent true compressed opcode) :
      Carried compressed opcode f.payload [] [f]
  | split {f : WireFrame} {bs : Bytes} {controls : List Message} {fs : List WireFrame}
      (hf : f.IsSent false compressed opcode) (h : Continues bs controls fs) :
      Carried compressed opcode (f.payload ++ bs) controls (f :: fs)

/-- A client sends messages as frames; it compresses some of them only if `compresses` holds.
`history` is what its compressor has worked on so far. From one message to the next, the compressor may
remember all of it, or only what came last, or nothing. -/
inductive Sends (compresses : Bool) : Bytes → List Message → List WireFrame → Prop where
  | done {history : Bytes} : Sends compresses history [] []
  | control {history : Bytes} {f : WireFrame} {m : Message} {ms : List Message}
      {fs : List WireFrame} (hf : f.Controls m) (h : Sends compresses history ms fs) :
      Sends compresses history (m :: ms) (f :: fs)
  | plain {history bs : Bytes} {opcode : UInt8} {m : Message} {controls ms : List Message}
      {fs gs : List WireFrame} (hm : m.IsData opcode bs) (hlength : bs.length < maxMessage)
      (hfs : Carried false opcode bs controls fs) (h : Sends compresses history ms gs) :
      Sends compresses history (controls ++ m :: ms) (fs ++ gs)
  | compressed {history history' remembered bs payload : Bytes} {opcode : UInt8} {m : Message}
      {controls ms : List Message} {fs gs : List WireFrame} (hcompresses : compresses = true)
      (hm : m.IsData opcode bs) (hlength : bs.length < maxMessage)
      (hpayload : payload.length < maxMessage) (hremembered : remembered <:+ history)
      (hcarries : Deflate.Carries remembered payload bs history')
      (hfs : Carried true opcode payload controls fs) (h : Sends compresses history' ms gs) :
      Sends compresses history (controls ++ m :: ms) (fs ++ gs)

/-! ### Frames that are sent -/

namespace WireFrame.IsSent

variable {f : WireFrame} {final rsv1 : Bool} {opcode : UInt8}

/-- A frame that is not compressed is legal for a receiver. -/
theorem isLegal (h : f.IsSent final false opcode) : Receiver.isLegal f.header = true := by
  obtain ⟨key, hkey⟩ := Option.isSome_iff_exists.1 h.masked
  simp [Receiver.isLegal, WireHeader.header, hkey, h.rsv1_eq, h.rsv2_eq, h.rsv3_eq]

end WireFrame.IsSent

namespace Message

variable {m : Message} {opcode : UInt8} {bs : Bytes}

theorem IsData.isKnown (h : m.IsData opcode bs) : Opcode.isKnown opcode = true := by
  cases h <;> rfl

theorem IsData.not_isControl (h : m.IsData opcode bs) : Opcode.isControl opcode = false := by
  cases h <;> rfl

theorem IsData.ne_continuation (h : m.IsData opcode bs) : opcode ≠ Opcode.continuation := by
  cases h <;> decide

theorem IsData.opcode_lt (h : m.IsData opcode bs) : opcode.toNat < 16 := by
  cases h <;> decide

theorem IsControl.isKnown (h : m.IsControl opcode bs) : Opcode.isKnown opcode = true := by
  cases h <;> rfl

theorem IsControl.isControl (h : m.IsControl opcode bs) : Opcode.isControl opcode = true := by
  cases h <;> rfl

end Message

/-! ### Control frames before other messages -/

/-- Control frames are sent one by one. -/
theorem Sends.controls {compresses : Bool} {history : Bytes} {ms controls : List Message}
    {fs gs : List WireFrame} (hgs : List.Forall₂ WireFrame.Controls gs controls)
    (h : Sends compresses history ms fs) :
    Sends compresses history (controls ++ ms) (gs ++ fs) := by
  induction hgs with
  | nil => exact h
  | cons hg _ ih => exact .control hg ih

/-- Who never compresses sends as one who may. -/
theorem Sends.of_plain {history : Bytes} {ms : List Message} {fs : List WireFrame}
    (h : Sends false history ms fs) : Sends true history ms fs := by
  induction h with
  | done => exact .done
  | control hf _ ih => exact .control hf ih
  | plain hm hlength hfs _ ih => exact .plain hm hlength hfs ih
  | compressed hcompresses => cases hcompresses

end Switchyard
