import Switchyard.WebSocket.Message

/-!
# Channels under script

A WebSocket channel whose items are laid down in advance, together with when it takes messages. A
message is handed over when the channel is ready for it, and then flushed; either may have to wait.

A script does not lay down that the channel fails while it becomes ready or is flushed, which ends a
relay just as a refused message does, nor that closing has to wait.
-/

namespace Switchyard

/-- The items and answers that a channel will give, and what was sent on it. -/
structure Channel where
  /-- Items that wait to be pulled. -/
  items : List Item
  /-- How many items have been pulled. -/
  pulled : Nat
  /-- The channel is not ready for a message. -/
  blocked : Bool
  /-- Flushes have to wait. -/
  flushBlocked : Bool
  /-- The next message that is handed over fails. -/
  sendError : Option ChannelError
  /-- The next attempt to close fails. -/
  closeError : Option ChannelError
  /-- The messages handed over, last one first. -/
  sent : List Message
  isClosed : Bool
  deriving DecidableEq

namespace Channel

/-- A channel that delivers nothing and takes everything. -/
def idle : Channel :=
  ⟨[], 0, false, false, none, none, [], false⟩

/-- Hands a message over. -/
def handOver (m : Message) (c : Channel) : Except ChannelError Unit × Channel :=
  match c.sendError with
  | some e => (.error e, { c with sendError := none })
  | none => (.ok (), { c with sent := m :: c.sent })

/-- Attempts to close. -/
def close (c : Channel) : Except ChannelError Unit × Channel :=
  match c.closeError with
  | some e => (.error e, { c with closeError := none })
  | none => (.ok (), { c with isClosed := true })

end Channel

end Switchyard
