import Switchyard.Text.Utf8
import Switchyard.WebSocket.Frame
import Switchyard.WebSocket.Message

/-!
# Receiving messages

The server's end of a channel takes the bytes of its client apart into messages (RFC 6455, section 5).
Frames have to be masked and free of reserved bits and opcodes; control frames are short and whole;
text is UTF-8, which is checked part by part. A frame that breaks a rule breaks the channel.
`Message.reply` is what the channel itself sends back.
-/

namespace Switchyard

/-- The opcode has a meaning. -/
def Opcode.isKnown (opcode : UInt8) : Bool :=
  opcode ≤ 2 || (8 ≤ opcode && opcode ≤ 10)

/-- A message of which frames are missing. -/
structure PartialMessage where
  isText : Bool
  /-- The payloads so far, last one first. -/
  parts : List Bytes
  /-- How many bytes they have. -/
  size : Nat
  /-- The bytes of a character that is cut off at the end of a text. -/
  cut : Bytes
  deriving DecidableEq, Repr

namespace PartialMessage

/-- The longest message. -/
def maxSize : Nat := 67108864

/-- A message without a payload. -/
def start (isText : Bool) : PartialMessage :=
  ⟨isText, [], 0, []⟩

/-- The message with one more payload. -/
def extend (m : PartialMessage) (payload : Bytes) : Option PartialMessage :=
  let size := m.size + payload.length
  if maxSize < size then none
  else
    let extended := { m with parts := payload :: m.parts, size }
    if m.isText then
      (Utf8.advance (m.cut ++ payload)).map fun cut => { extended with cut }
    else some extended

/-- The message, when its last frame is there. -/
def complete (m : PartialMessage) : Option Message :=
  let bs := m.parts.reverse.flatten
  if m.isText then (Utf8.decode? bs).map .text else some (.binary bs)

end PartialMessage

namespace CloseFrame

/-- A code that may be sent. -/
def isAllowed (code : UInt16) : Bool :=
  let n := code.toNat
  (1000 ≤ n && n ≤ 1003) || (1007 ≤ n && n ≤ 1013) || (3000 ≤ n && n ≤ 4999)

/-- What stands for a frame whose code may not be sent. -/
def violation : CloseFrame :=
  ⟨1002, "Protocol violation".toList⟩

/-- The frame, or what stands for it. -/
def sanitize (f : CloseFrame) : CloseFrame :=
  if isAllowed f.code then f else violation

/-- The payload of a frame. -/
def payload (f : CloseFrame) : Bytes :=
  Bytes.ofNat 2 f.code.toNat ++ Bytes.ofText f.reason

/-- The message of a close frame with this payload. -/
def message? : Bytes → Option Message
  | [] => some (.close none)
  | [_] => none
  | hi :: lo :: reason =>
    (Utf8.decode? reason).map fun reason =>
      .close (some (sanitize ⟨UInt16.ofNat (Bytes.toNat [hi, lo]), reason⟩))

end CloseFrame

/-- What the channel sends back for a message: pings are answered, and so is a close. -/
def Message.reply : Message → Option Bytes
  | ping bs => some (plainFrame Opcode.pong bs)
  | close frame => some (plainFrame Opcode.close ((frame.map CloseFrame.payload).getD []))
  | binary _ | text _ | pong _ => none

/-- The receiving end of a channel. -/
structure Receiver where
  /-- Bytes that were taken and are not part of a message yet. -/
  unread : Bytes
  /-- The message whose frames are under way. -/
  message : Option PartialMessage
  deriving DecidableEq, Repr

/-- What the next frame brings. -/
inductive Received where
  /-- There is no complete frame. -/
  | hungry
  | message (m : Message) (r : Receiver)
  /-- A part of a message. -/
  | part (r : Receiver)
  /-- The client has broken a rule. -/
  | broken
  deriving DecidableEq, Repr

/-- The receiving end behind a frame. -/
def Received.receiver? : Received → Option Receiver
  | message _ r => some r
  | part r => some r
  | hungry => none
  | broken => none

namespace Receiver

/-- The end of a channel on which nothing has come. -/
def start : Receiver :=
  ⟨[], none⟩

/-- The message of a control frame. -/
def control? (opcode : UInt8) (payload : Bytes) : Option Message :=
  if 125 < payload.length then none
  else if opcode = Opcode.close then CloseFrame.message? payload
  else if opcode = Opcode.ping then some (.ping payload)
  else some (.pong payload)

/-- The message to which a data frame belongs; it begins one exactly when none is under way. -/
def belongsTo? (r : Receiver) (opcode : UInt8) : Option PartialMessage :=
  if opcode = Opcode.continuation then r.message
  else if r.message.isSome then none
  else some (.start (opcode == Opcode.text))

/-- Takes in a payload. -/
def accept (r : Receiver) (h : FrameHeader) (payload : Bytes) : Received :=
  if Opcode.isControl h.opcode then
    match control? h.opcode payload with
    | some m => if h.final then .message m r else .broken
    | none => .broken
  else
    match (r.belongsTo? h.opcode).bind (·.extend payload) with
    | none => .broken
    | some m =>
      if h.final then
        match m.complete with
        | some m => .message m { r with message := none }
        | none => .broken
      else .part { r with message := some m }

/-- The frame may come from a client. -/
def isLegal (h : FrameHeader) : Bool :=
  h.key.isSome && !h.rsv1 && !h.rsv2 && !h.rsv3

/-- Takes the next frame off the bytes that are there. -/
def next (r : Receiver) : Received :=
  match FrameHeader.read r.unread with
  | .incomplete => .hungry
  | .tooLarge => .broken
  | .header h =>
    if !Opcode.isKnown h.opcode then .broken
    else if r.unread.length < h.total then .hungry
    else if isLegal h then
      let payload := (r.unread.drop h.length).take h.payloadLength
      accept { r with unread := r.unread.drop h.total } h (FrameHeader.unmask h.key payload)
    else .broken

theorem unread_accept {r r' : Receiver} {h : FrameHeader} {payload : Bytes}
    (hr : (accept r h payload).receiver? = some r') : r'.unread = r.unread := by
  unfold accept at hr
  repeat' split at hr
  all_goals first
    | cases hr; rfl
    | cases hr

/-- Each frame takes bytes away. -/
theorem unread_next_lt {r r' : Receiver} (hr : r.next.receiver? = some r') :
    r'.unread.length < r.unread.length := by
  unfold next at hr
  split at hr
  · cases hr
  · cases hr
  · next h hh =>
    have hpos := FrameHeader.total_pos_of_read hh
    split at hr
    · cases hr
    · split at hr
      · cases hr
      · split at hr
        · rw [unread_accept hr, List.length_drop]
          omega
        · cases hr

end Receiver

end Switchyard
