import Switchyard.Stream.Prefixed
import Switchyard.Stream.WriteAll
import Switchyard.Web.Conversation

/-!
# Conversations on a stream

A conversation on a stream makes room, reads a chunk, writes its answers, and goes on until it has to
wait, is over, or becomes a channel. The channel gets every byte behind the request that asked for it.
-/

namespace Switchyard

/-- How far a conversation on a stream has come. -/
inductive WebPoll (σ : Type) where
  | waiting (stream : σ) (c : Conversation)
  | ended (stream : σ)
  | channel (stream : PrefixedStream σ) (inflates : Bool)

namespace WebPoll

variable {σ : Type} [ByteStream σ]

/-- Writes what a step sends; a client that does not take it is given up. -/
def settle (stream : σ) (step : ConversationStep) : WebPoll σ :=
  match writeAll step.output stream with
  | (.done, stream) =>
    match step.outlook with
    | .more => .waiting stream step.conversation
    | .ended => .ended stream
    | .channel inflates => .channel ⟨step.conversation.unread, stream⟩ inflates
  | (_, stream) => .ended stream

/-- A step after which nothing more can be read. -/
def last (stream : σ) (step : ConversationStep) : WebPoll σ × List Request :=
  (settle stream step, step.asked)

theorem backlog_settle_le {stream stream' : σ} {step : ConversationStep} {c : Conversation}
    (h : settle stream step = .waiting stream' c) :
    ByteStream.backlog stream' ≤ ByteStream.backlog stream := by
  have hle := backlog_writeAll_le step.output stream
  unfold settle at h
  split at h
  · next hw =>
    rw [hw] at hle
    split at h
    · cases h
      exact hle
    · cases h
    · cases h
  · cases h

/-- Goes on with a conversation, and tells which requests were answered. -/
def ofStream (site : Request → WebAnswer) (stream : σ) (c : Conversation) :
    WebPoll σ × List Request :=
  match _hr : ByteStream.read c.makeRoom.room stream with
  | (.pending, stream) => last stream (c.makeRoom.pause site)
  | (.failed _, stream) => last stream (c.makeRoom.stop site)
  | (.ready [], stream) => last stream (c.makeRoom.stop site)
  | (.ready (b :: bs), behind) =>
    let step := c.makeRoom.take site (b :: bs)
    match _hs : settle behind step with
    | .waiting stream c =>
      let (result, asked) := ofStream site stream c
      (result, step.asked ++ asked)
    | .ended stream => (.ended stream, step.asked)
    | .channel stream inflates => (.channel stream inflates, step.asked)
termination_by ByteStream.backlog stream
decreasing_by
  exact Nat.lt_of_le_of_lt (backlog_settle_le _hs) (ByteStream.backlog_lt _hr (by simp))

end WebPoll

end Switchyard
