import Switchyard.Connection.OpenChannel
import Switchyard.Stream.Sniff
import Switchyard.Web.Serving

/-!
# Connections

A connection is sniffed and then either answered as a web connection, which may turn it into a
channel, or handed to the fallback with all its bytes. It is decided once. `Connection.poll` goes on
as far as the client's bytes allow; `Connection.expire` is what happens when the client has been
silent for too long.
-/

namespace Switchyard

/-- What happens to connections that are not web connections. -/
inductive Fallback where
  /-- They are closed. -/
  | close
  /-- They are passed on to another service. It cannot be reached from here, so they are closed. -/
  | forward
  /-- All their bytes are taken and none is answered. -/
  | absorb
  deriving DecidableEq, Repr

/-- What connections are served with. -/
structure Service where
  config : Config
  /-- The name of the provider in subscriptions. -/
  provider : List Char
  /-- The lookup of names. -/
  resolve : List Char → List Char
  fallback : Fallback

namespace Service

/-- The web side of the service. -/
def site (s : Service) : Request → WebAnswer :=
  WebAnswer.ofRequest s.config s.provider

/-- How many milliseconds the service waits for a first byte. -/
def sniffLimit (s : Service) : Option Nat :=
  s.config.sniffTimeout.map fun seconds => seconds.toNat * 1000

end Service

/-- What a connection is doing. -/
inductive Phase (σ : Type) where
  /-- Waiting for a first byte. -/
  | sniffing (stream : σ)
  /-- Giving its bytes to the fallback. -/
  | absorbing (stream : PrefixedStream σ)
  /-- Answering requests. -/
  | conversing (stream : PrefixedStream σ) (c : Conversation)
  /-- Carrying a channel with a session. -/
  | channel (c : OpenChannel (PrefixedStream (PrefixedStream σ)))
  /-- Nothing more. -/
  | closed (stream : σ)

namespace Phase

variable {σ : Type}

/-- The client's stream. -/
def stream : Phase σ → σ
  | sniffing stream => stream
  | absorbing s => s.inner
  | conversing s _ => s.inner
  | channel c => c.stream.inner.inner.inner
  | closed stream => stream

/-- The phase with another state of the client's stream. -/
def withStream (stream : σ) : Phase σ → Phase σ
  | sniffing _ => sniffing stream
  | absorbing s => absorbing { s with inner := stream }
  | conversing s c => conversing { s with inner := stream } c
  | channel c =>
    channel { c with
      stream := { c.stream with
        inner := { c.stream.inner with inner := { c.stream.inner.inner with inner := stream } } } }
  | closed _ => closed stream

/-- The program has let go of the client's stream. -/
def isClosed : Phase σ → Bool
  | closed _ => true
  | sniffing _ | absorbing _ | conversing .. | channel _ => false

/-- How many sessions there are. -/
def sessions : Phase σ → Nat
  | channel _ => 1
  | sniffing _ | absorbing _ | conversing .. | closed _ => 0

end Phase

/-- A connection. -/
structure Connection (σ : Type) where
  phase : Phase σ
  /-- The side that was given the connection, with the stream that it was given. -/
  handed : List (Route × PrefixedStream σ)
  /-- What a fallback that takes all bytes was given, if it was reached. -/
  absorbed : Option Bytes
  /-- The requests that the web side has answered. -/
  asked : List Request
  /-- What remains of sessions that are over. -/
  visits : List Visit

namespace Connection

variable {σ : Type}

/-- A connection that has just been accepted. -/
def start (stream : σ) : Connection σ :=
  ⟨.sniffing stream, [], none, [], []⟩

/-- The names that were looked up. -/
def lookups (c : Connection σ) : List (List Char) :=
  c.visits.flatMap Visit.lookups

/-- A connection that is given to a side. -/
def hand (c : Connection σ) (route : Route) (stream : PrefixedStream σ) : Connection σ :=
  { c with handed := c.handed ++ [(route, stream)] }

/-- The connection, closed. -/
def close (c : Connection σ) : Connection σ :=
  { c with phase := .closed c.phase.stream }

/-- The time to wait for a first byte is over. It does not matter any more once there was one. -/
def expire (c : Connection σ) : Connection σ :=
  match c.phase with
  | .sniffing _ => c.close
  | .absorbing _ | .conversing .. | .channel _ | .closed _ => c

variable [ByteStream σ]

/-- How many bytes a fallback reads at a time. -/
def chunkSize : Nat := 8192

/-- Takes all bytes that are there. -/
def absorb (c : Connection σ) (stream : PrefixedStream σ) (taken : Bytes) : Connection σ :=
  match _h : ByteStream.read chunkSize stream with
  | (.pending, stream) => { c with phase := .absorbing stream, absorbed := some taken }
  | (.failed _, stream) => { c with phase := .closed stream.inner, absorbed := some taken }
  | (.ready [], stream) => { c with phase := .closed stream.inner, absorbed := some taken }
  | (.ready (b :: bs), stream) => absorb c stream (taken ++ b :: bs)
termination_by ByteStream.backlog stream
decreasing_by exact ByteStream.backlog_lt _h (by simp)

/-- The fallback is given a connection. -/
def fallBack (s : Service) (c : Connection σ) (stream : PrefixedStream σ) : Connection σ :=
  let c := c.hand .fallback stream
  match s.fallback with
  | .close => { c with phase := .closed (ByteStream.shutdown stream).2.inner }
  | .forward => { c with phase := .closed stream.inner }
  | .absorb => c.absorb stream []

/-- The connection when its channel has come so far. -/
def afterChannel (c : Connection σ) :
    ChannelPoll (PrefixedStream (PrefixedStream σ)) → Connection σ
  | .waiting channel => { c with phase := .channel channel }
  | .ended stream visit =>
    { c with phase := .closed stream.inner.inner, visits := c.visits ++ [visit] }

/-- Goes on with a channel. -/
def carry (s : Service) (c : Connection σ)
    (channel : OpenChannel (PrefixedStream (PrefixedStream σ))) : Connection σ :=
  c.afterChannel (channel.poll s.config.identity s.resolve s.config.connectTimeout)

/-- Goes on with a conversation. -/
def converse (s : Service) (c : Connection σ) (stream : PrefixedStream σ) (talk : Conversation) :
    Connection σ :=
  let (result, asked) := WebPoll.ofStream s.site stream talk
  let c := { c with asked := c.asked ++ asked }
  match result with
  | .waiting stream talk => { c with phase := .conversing stream talk }
  | .ended stream => { c with phase := .closed stream.inner }
  | .channel stream inflates => c.carry s (.start stream inflates)

/-- The web side is given a connection. -/
def serve (s : Service) (c : Connection σ) (stream : PrefixedStream σ) : Connection σ :=
  (c.hand .web stream).converse s stream .start

/-- Sends a connection where its first byte belongs. -/
def route (s : Service) (c : Connection σ) (stream : σ) : Connection σ :=
  match sniff stream with
  | .waiting stream => { c with phase := .sniffing stream }
  | .closed => { c with phase := .closed stream }
  | .failed _ => { c with phase := .closed stream }
  | .routed .web stream => c.serve s stream
  | .routed .fallback stream => c.fallBack s stream

/-- Goes on with a connection until it has to wait for its client or is closed. -/
def poll (s : Service) (c : Connection σ) : Connection σ :=
  match c.phase with
  | .sniffing stream => c.route s stream
  | .absorbing stream => c.absorb stream (c.absorbed.getD [])
  | .conversing stream talk => c.converse s stream talk
  | .channel channel => c.carry s channel
  | .closed _ => c

end Connection

end Switchyard
