import Switchyard.Config.Basic
import Switchyard.Session.Dial
import Switchyard.Session.Relay
import Switchyard.Tunnel.Authenticate

/-!
# Sessions

A session waits for the first binary message of its channel, which has to carry the user's
credentials; otherwise it ends without a word. It answers as the scheme asks for, dials the
destination, sends it the rest of the message, and relays until either side is done.
`Session.react` is the decision about each item of the channel. A session goes through its stages in
order: `Session.poll` takes it through as many of them as it can go without waiting.
-/

namespace Switchyard

namespace Session

/-- What a session does about an item, before it knows its destination. -/
inductive Reaction where
  /-- The item does not count. -/
  | skip
  /-- The session ends, and closes the channel if the client asked for that. -/
  | leave (close : Bool)
  /-- The session answers and goes to the destination. -/
  | serve (request : TunnelRequest) (reply : Option Bytes)
  deriving DecidableEq, Repr

/-- The decision about an item. -/
def react (id : Identity) : Item → Reaction
  | .message (.binary bs) =>
    match authenticate id bs with
    | some request => .serve request (request.reply (bs.headD 0))
    | none => .leave false
  | .message (.close _) => .leave true
  | .message _ => .skip
  | .failure _ => .leave false
  | .finish => .leave false

/-- Why a session fails. -/
inductive SessionError where
  /-- The answer cannot be sent. -/
  | channel (e : ChannelError)
  | dial (e : DialError)
  /-- The rest of the first message cannot be written. -/
  | payload (e : StreamError)
  | relay (e : RelayError)
  deriving DecidableEq, Repr

/-- The wording of an error. -/
def SessionError.message : SessionError → List Char
  | channel e => "websocket: ".toList ++ e.message
  | dial e => e.message
  | payload e => "writing initial payload: ".toList ++ e.message
  | relay e => "relay: ".toList ++ e.message

/-- Pulls items up to the first one that counts. -/
def pullFirst (id : Identity) (c : Channel) : List Item → Option Reaction × Channel
  | [] => (none, { c with items := [] })
  | item :: items =>
    let c := { c with items, pulled := c.pulled + 1 }
    match react id item with
    | .skip => pullFirst id c items
    | reaction => (some reaction, c)

end Session

open Session in
/-- Where a session stands, with its channel, the names that were looked up, and the remote stream
once there is one. -/
inductive Session where
  /-- The first message that counts did not come yet. -/
  | awaiting (c : Channel)
  /-- The answer waits for the channel. -/
  | answering (c : Channel) (request : TunnelRequest) (reply : Bytes)
  /-- The answer was handed over and is to be flushed. -/
  | flushing (c : Channel) (request : TunnelRequest)
  | dialing (c : Channel) (request : TunnelRequest)
  /-- This rest of the first message is to be sent to the remote stream. -/
  | forwarding (c : Channel) (lookups : List (List Char)) (rest : Bytes) (remote : Script)
  | relaying (lookups : List (List Char)) (relay : Relay Script)
  | ended (c : Channel) (lookups : List (List Char)) (remote : Option Script)
      (result : Except SessionError Unit)

namespace Session

/-! ### Stage by stage -/

/-- Waits for the first item that counts and decides about it. That the channel cannot be closed
changes nothing. -/
def receive (id : Identity) : Session → Session
  | .awaiting c =>
    match pullFirst id c c.items with
    | (none, c) => .awaiting c
    | (some .skip, c) => .awaiting c
    | (some (.leave close), c) => .ended (if close then c.close.2 else c) [] none (.ok ())
    | (some (.serve request none), c) => .dialing c request
    | (some (.serve request (some reply)), c) => .answering c request reply
  | s => s

/-- Hands the answer over, when the channel is ready for it. -/
def answer : Session → Session
  | .answering c request reply =>
    if c.blocked then .answering c request reply
    else
      match c.handOver (.binary reply) with
      | (.error e, c) => .ended c [] none (.error (.channel e))
      | (.ok (), c) => .flushing c request
  | s => s

def flush : Session → Session
  | .flushing c request => if c.flushBlocked then .flushing c request else .dialing c request
  | s => s

/-- Goes to the destination of the request. -/
def connect (timeout : UInt64) (net : Network) : Session → Session
  | .dialing c request =>
    let dialed := net.dial timeout request.host.text request.tcp
    match dialed.result with
    | .error e => .ended c dialed.lookups none (.error (.dial e))
    | .ok remote => .forwarding c dialed.lookups request.payload remote
  | s => s

/-- Sends the rest of the first message to the remote stream. -/
def forward : Session → Session
  | .forwarding c lookups rest remote =>
    match writeAll rest remote with
    | (.waiting rest, remote) => .forwarding c lookups rest remote
    | (.failed e, remote) => .ended c lookups (some remote) (.error (.payload e))
    | (.done, remote) => .relaying lookups (.start c remote)
  | s => s

/-- Relays between the channel and the remote stream. -/
def relay : Session → Session
  | .relaying lookups r =>
    let r := r.poll
    match r.stage with
    | .open | .closing => .relaying lookups r
    | .ended (.ok _) => .ended r.channel lookups (some r.remote) (.ok ())
    | .ended (.error e) => .ended r.channel lookups (some r.remote) (.error (.relay e))
  | s => s

/-! ### The whole -/

/-- The stages in which a session does something. -/
inductive Task where
  | receive
  | answer
  | flush
  | connect
  | forward
  | relay
  deriving DecidableEq, Repr

/-- Goes on with a session that stands at a stage; another one stays as it is. -/
def turn (id : Identity) (timeout : UInt64) (net : Network) (t : Task) (s : Session) : Session :=
  match t with
  | .receive => s.receive id
  | .answer => s.answer
  | .flush => s.flush
  | .connect => s.connect timeout net
  | .forward => s.forward
  | .relay => s.relay

/-- Goes on with a session until it has to wait or has ended. -/
def poll (id : Identity) (timeout : UInt64) (net : Network) (s : Session) : Session :=
  [Task.receive, .answer, .flush, .connect, .forward, .relay].foldl
    (fun s t => s.turn id timeout net t) s

/-- What is seen of how far a session has come. -/
inductive Result where
  | waiting
  | done
  | failed (e : SessionError)
  deriving DecidableEq, Repr

/-- What is seen of a session. -/
structure Outcome where
  result : Result
  channel : Channel
  /-- The names that were looked up. -/
  lookups : List (List Char)
  /-- The remote stream, if one was reached. -/
  remote : Option Script

def outcome : Session → Outcome
  | .awaiting c => ⟨.waiting, c, [], none⟩
  | .answering c _ _ => ⟨.waiting, c, [], none⟩
  | .flushing c _ => ⟨.waiting, c, [], none⟩
  | .dialing c _ => ⟨.waiting, c, [], none⟩
  | .forwarding c lookups _ remote => ⟨.waiting, c, lookups, some remote⟩
  | .relaying lookups r => ⟨.waiting, r.channel, lookups, some r.remote⟩
  | .ended c lookups remote (.ok ()) => ⟨.done, c, lookups, remote⟩
  | .ended c lookups remote (.error e) => ⟨.failed e, c, lookups, remote⟩

/-- Runs a session as far as its channel and network allow. -/
def run (id : Identity) (timeout : UInt64) (net : Network) (c : Channel) : Outcome :=
  (poll id timeout net (.awaiting c)).outcome

end Session

end Switchyard
