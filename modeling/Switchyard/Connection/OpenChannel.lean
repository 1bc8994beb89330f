import Switchyard.Session.Session
import Switchyard.WebSocket.InflateStream
import Switchyard.WebSocket.Receiver

/-!
# Open channels

An open channel reads its client's messages one by one, answers pings and closes, and leaves the
others to its session, which waits for the first binary one. A session that gets credentials answers
and dials. No destination can be reached from here, so that is where it ends; what remains of it is a
`Visit`.
-/

namespace Switchyard

/-- A channel whose session waits for credentials. -/
structure OpenChannel (σ : Type) where
  stream : InflateStream σ
  receiver : Receiver

/-- What remains of a session that is over. -/
structure Visit where
  /-- The first binary message, if one has come. -/
  first : Option Bytes
  /-- The request whose destination was dialed. -/
  dialed : Option TunnelRequest
  /-- The names that were looked up. -/
  lookups : List (List Char)
  deriving DecidableEq, Repr

/-- A session to which no binary message came. -/
def Visit.empty : Visit :=
  ⟨none, none, []⟩

/-- How far a channel has come. -/
inductive ChannelPoll (σ : Type) where
  | waiting (c : OpenChannel σ)
  /-- The channel and its session are over. -/
  | ended (stream : σ) (visit : Visit)

namespace OpenChannel

variable {σ : Type} [ByteStream σ]

/-- A channel on a stream from which nothing has been read. -/
def start (stream : σ) (inflates : Bool) : OpenChannel σ :=
  ⟨.make stream inflates, .start⟩

/-- How many bytes are read at a time. -/
def chunkSize : Nat := 4096

/-- Sends a frame, if there is one, and tells whether that was possible. -/
def send (frame : Option Bytes) (c : OpenChannel σ) : Bool × OpenChannel σ :=
  match frame with
  | none => (true, c)
  | some bs =>
    let (written, inner) := writeAll bs c.stream.inner
    (written = .done, { c with stream := { c.stream with inner } })

theorem receiver_send (frame : Option Bytes) (c : OpenChannel σ) :
    (c.send frame).2.receiver = c.receiver := by
  cases frame <;> rfl

theorem backlog_send_fst_le (frame : Option Bytes) (c : OpenChannel σ) :
    (c.send frame).2.stream.backlog.1 ≤ c.stream.backlog.1 := by
  cases frame with
  | none => exact Nat.le_refl _
  | some bs => exact backlog_writeAll_le bs c.stream.inner

theorem backlog_send_snd (frame : Option Bytes) (c : OpenChannel σ) :
    (c.send frame).2.stream.backlog.2 = c.stream.backlog.2 := by
  cases frame <;> rfl

/-- Answers the request of the first message and dials its destination. -/
def serve (resolve : List Char → List Char) (timeout : UInt64) (first : Option Bytes)
    (request : TunnelRequest) (reply : Option Bytes) (c : OpenChannel σ) : ChannelPoll σ :=
  match c.send (reply.map (plainFrame Opcode.binary)) with
  | (false, c) => .ended c.stream.inner ⟨first, none, []⟩
  | (true, c) =>
    let dialed := (Network.unreachable resolve).dial timeout request.host.text request.tcp
    .ended c.stream.inner ⟨first, some request, dialed.lookups⟩

/-- Goes on with a channel until it has to wait or is over. -/
def poll (id : Identity) (resolve : List Char → List Char) (timeout : UInt64)
    (c : OpenChannel σ) : ChannelPoll σ :=
  match _hn : c.receiver.next with
  | .broken => .ended c.stream.inner .empty
  | .part receiver => poll id resolve timeout { c with receiver }
  | .message m receiver =>
    match _hs : send m.reply { c with receiver } with
    | (false, answered) => .ended answered.stream.inner ⟨m.binary?, none, []⟩
    | (true, answered) =>
      match Session.react id (.message m) with
      | .skip => poll id resolve timeout answered
      | .leave _ => .ended answered.stream.inner ⟨m.binary?, none, []⟩
      | .serve request reply => answered.serve resolve timeout m.binary? request reply
  | .hungry =>
    match _hr : c.stream.read chunkSize with
    | (.pending, stream) => .waiting { c with stream }
    | (.failed _, stream) => .ended stream.inner .empty
    | (.ready [], stream) => .ended stream.inner .empty
    | (.ready (b :: bs), stream) =>
      poll id resolve timeout
        ⟨stream, { c.receiver with unread := c.receiver.unread ++ b :: bs }⟩
termination_by (c.stream.backlog.1, c.stream.backlog.2, c.receiver.unread.length)
decreasing_by
  · have hlt := Receiver.unread_next_lt (congrArg Received.receiver? _hn)
    exact .right _ (.right _ hlt)
  · have hlt := Receiver.unread_next_lt (congrArg Received.receiver? _hn)
    have hle := backlog_send_fst_le m.reply { c with receiver }
    have heq := backlog_send_snd m.reply { c with receiver }
    have hrec := receiver_send m.reply { c with receiver }
    rw [_hs] at hle heq hrec
    refine Measure.lex_of_le hle (Measure.lex_of_le (Nat.le_of_eq heq) ?_)
    rw [hrec]
    exact hlt
  · exact Measure.lex_append (InflateStream.shorter_of_read _hr (by simp))

end OpenChannel

end Switchyard
