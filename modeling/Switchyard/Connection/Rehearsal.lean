import Switchyard.Connection.Basic
import Switchyard.Connection.Wire

/-!
# Rehearsals

A rehearsal is a connection with a client in memory and a clock of its own. The program goes on
whenever the client waits, and the clock moves only when both wait. So a client sees the same answers
at the same times in every run.
-/

namespace Switchyard

/-- A connection with its client. -/
structure Rehearsal where
  service : Service
  connection : Connection Wire
  /-- Milliseconds since the start. -/
  clock : Nat
  /-- The client sends nothing more. -/
  finished : Bool
  /-- The client has gone. -/
  gone : Bool

/-- Why a client gets no more bytes. -/
inductive Silence where
  /-- The program has closed the connection. -/
  | ended
  /-- Nothing came for some time. -/
  | timedOut
  deriving DecidableEq, Repr

namespace Rehearsal

/-- A connection that begins. -/
def start (service : Service) (wire : Wire) : Rehearsal :=
  ⟨service, .start wire, 0, false, false⟩

/-- The wire between the two. -/
def wire (r : Rehearsal) : Wire :=
  r.connection.phase.stream

/-- Does something to the wire. -/
def onWire (r : Rehearsal) (f : Wire → Wire) : Rehearsal :=
  { r with connection := { r.connection with phase := r.connection.phase.withStream (f r.wire) } }

/-! ### What a client does -/

/-- The client sends bytes, if the program still takes them. -/
def send (r : Rehearsal) (bs : Bytes) : Except StreamError Rehearsal :=
  if bs ≠ [] ∧ r.connection.phase.isClosed then .error Wire.brokenPipe
  else .ok (r.onWire (Wire.send bs))

/-- The client sends nothing more. -/
def finish (r : Rehearsal) : Rehearsal :=
  { r.onWire Wire.finish with finished := true }

/-- The client goes away. -/
def hangUp (r : Rehearsal) : Rehearsal :=
  { r.onWire Wire.hangUp with finished := true, gone := true }

/-! ### Waiting -/

/-- The program's time is over before `limit`. -/
def expiresBefore (r : Rehearsal) (limit : Nat) : Bool :=
  r.service.sniffLimit.any fun time => time < limit

/-- The program goes on, and notices when its time is over. -/
def settle (r : Rehearsal) : Rehearsal :=
  let connection := r.connection.poll r.service
  { r with
    connection := if r.expiresBefore (r.clock + 1) then connection.expire else connection }

/-- Nothing happens for some milliseconds, but that the program's time may be over. -/
def elapse (r : Rehearsal) (ms : Nat) : Rehearsal :=
  let clock := r.clock + ms
  { r with
    connection := if r.expiresBefore clock then r.connection.expire else r.connection
    clock }

/-- The client waits. -/
def wait (r : Rehearsal) (ms : Nat) : Rehearsal :=
  r.settle.elapse ms

/-- How many milliseconds a client waits for bytes. -/
def patience : Nat := 500

/-- The client takes everything that was written for it. -/
def takeAll (r : Rehearsal) : Bytes × Rehearsal :=
  (r.wire.written, r.onWire fun w => { w with written := [] })

/-- The client waits for bytes from which `parse?` can take something. If it does not get them, it
takes what there is. -/
def receive {α : Type} (parse? : Bytes → Option (α × Bytes)) (r : Rehearsal) :
    Except (Bytes × Silence) α × Rehearsal :=
  let r := r.settle
  match parse? r.wire.written with
  | some (a, rest) => (.ok a, r.onWire fun w => { w with written := rest })
  | none =>
    let r := if r.connection.phase.isClosed then r else r.elapse patience
    let (bs, r) := r.takeAll
    (.error (bs, if r.connection.phase.isClosed then .ended else .timedOut), r)

/-! ### What a client waits for -/

/-- So many bytes. -/
def bytes? (n : Nat) (bs : Bytes) : Option (Bytes × Bytes) :=
  if n ≤ bs.length then some (bs.take n, bs.drop n) else none

/-- A frame of the program. -/
def frame? (bs : Bytes) : Option ((UInt8 × Bytes) × Bytes) :=
  match bs, FrameHeader.read bs with
  | first :: _, .header h =>
    if h.total ≤ bs.length then
      some ((first, (bs.drop h.length).take h.payloadLength), bs.drop h.total)
    else none
  | _, _ => none

end Rehearsal

end Switchyard
