import Switchyard.Bytes

/-!
# WebSocket messages

What a WebSocket channel delivers: messages, an error, or its end. `ChannelError.message` is the
wording of errors.
-/

namespace Switchyard

/-- The code and the reason of a close message. -/
structure CloseFrame where
  code : UInt16
  reason : List Char
  deriving DecidableEq, Repr

/-- A message in either direction. -/
inductive Message where
  | binary (bs : Bytes)
  | text (cs : List Char)
  | ping (bs : Bytes)
  | pong (bs : Bytes)
  | close (frame : Option CloseFrame)
  deriving DecidableEq, Repr

/-- The bytes of a binary message. -/
def Message.binary? : Message → Option Bytes
  | binary bs => some bs
  | text _ | ping _ | pong _ | close _ => none

/-- Why a channel fails. -/
inductive ChannelError where
  | connectionClosed
  | alreadyClosed
  | notUtf8
  | attackAttempt
  /-- The other side went away without closing the channel. -/
  | resetWithoutClose
  /-- The stream below failed, with this text. -/
  | stream (text : List Char)
  deriving DecidableEq, Repr

/-- The wording of an error. -/
def ChannelError.message : ChannelError → List Char
  | connectionClosed => "Connection closed normally".toList
  | alreadyClosed => "Trying to work with closed connection".toList
  | notUtf8 => "UTF-8 encoding error".toList
  | attackAttempt => "Attack attempt detected".toList
  | resetWithoutClose =>
    "WebSocket protocol error: Connection reset without closing handshake".toList
  | stream text => "IO error: ".toList ++ text

/-- What a channel delivers next. -/
inductive Item where
  | message (m : Message)
  | failure (e : ChannelError)
  /-- There will be nothing more. -/
  | finish
  deriving DecidableEq, Repr

end Switchyard
