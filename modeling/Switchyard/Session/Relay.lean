import Switchyard.Measure
import Switchyard.Session.Channel
import Switchyard.Stream.WriteAll

/-!
# The relay

A relay carries bytes both ways between a client's channel and a remote stream. Each direction takes
one message or chunk, passes it on completely, and only then takes the next one, so that at most one
is under way. Other messages than binary ones do not count. When the client is done the remote
stream is shut down and then the channel closed; when the remote is done the channel is closed. An
error in either direction ends the relay at once.

A direction goes step by step, and makes at most one call in each. `Relay.poll` takes steps until
both directions have to wait.
-/

namespace Switchyard

/-- Why a relay fails. -/
inductive RelayError where
  | channel (e : ChannelError)
  | remote (e : StreamError)
  deriving DecidableEq, Repr

/-- The wording of an error. -/
def RelayError.message : RelayError → List Char
  | channel e => "websocket: ".toList ++ e.message
  | remote e => "outbound: ".toList ++ e.message

/-- The side that ends a relay. -/
inductive Side where
  | inbound
  | outbound
  deriving DecidableEq, Repr

/-- How a relay ends: which side was done first, and the bytes carried in its direction. Bytes are
counted in words of 64 bits. -/
structure Closing where
  side : Side
  up : UInt64
  down : UInt64
  deriving DecidableEq, Repr

namespace Relay

/-- What the direction to the remote stream is doing. -/
inductive UpPhase where
  | pulling
  /-- Writing a message of `size` bytes, of which `rest` is left. -/
  | writing (rest : Bytes) (size : Nat)
  /-- Flushing a message of `size` bytes. -/
  | flushing (size : Nat)
  /-- Shutting the remote stream down. -/
  | ending
  deriving DecidableEq, Repr

/-- What the direction to the client is doing. -/
inductive DownPhase where
  | reading
  /-- Sending a chunk of `size` bytes. -/
  | sending (size : Nat)
  /-- Closing the channel. -/
  | ending
  deriving DecidableEq, Repr

/-- How far the whole relay is. -/
inductive Stage where
  /-- Both directions are open. -/
  | open
  /-- The client is done and the channel is to be closed. -/
  | closing
  | ended (result : Except RelayError Closing)

/-- The largest chunk that is read from the remote stream. -/
def chunkSize : Nat := 16384

/-- What a relay works on: each of its directions, and in the end the closing of the channel. -/
inductive Task where
  | up
  | down
  | closing
  deriving DecidableEq, Repr

end Relay

/-- A relay between a channel and a remote stream. -/
structure Relay (σ : Type) where
  channel : Channel
  remote : σ
  /-- A chunk on its way to the channel that was not handed over yet. -/
  slot : Option Bytes
  up : Relay.UpPhase
  down : Relay.DownPhase
  /-- Bytes that were written to the remote stream and flushed. -/
  upCount : UInt64
  /-- Bytes that were sent on the channel. -/
  downCount : UInt64
  stage : Relay.Stage

namespace Relay

variable {σ : Type} [ByteStream σ]

omit [ByteStream σ] in
/-- A relay that has not begun. -/
def start (channel : Channel) (remote : σ) : Relay σ :=
  ⟨channel, remote, none, .pulling, .reading, 0, 0, .open⟩

/-- How far a task has come. -/
inductive Progress where
  | done
  | waiting
  | failed (e : RelayError)
  deriving DecidableEq, Repr

/-- What a step comes to. -/
inductive Step (σ : Type) where
  /-- Another step can follow at once. -/
  | next (r : Relay σ)
  | stop (p : Progress) (r : Relay σ)

/-! ### From the client to the remote stream -/

/-- The phase that an item leads to; an error ends the direction. -/
def afterItem : Item → Except ChannelError UpPhase
  | .message (.binary bs) => .ok (.writing bs bs.length)
  | .message (.close _) => .ok .ending
  | .message _ => .ok .pulling
  | .failure e => .error e
  | .finish => .ok .ending

/-- A step of the direction to the remote stream. -/
def stepUp (r : Relay σ) : Step σ :=
  match r.up with
  | .pulling =>
    match r.channel.items with
    | [] => .stop .waiting r
    | item :: items =>
      let channel := { r.channel with items, pulled := r.channel.pulled + 1 }
      match afterItem item with
      | .error e => .stop (.failed (.channel e)) { r with channel }
      | .ok up => .next { r with channel, up }
  | .writing [] size => .next { r with up := .flushing size }
  | .writing (b :: bs) size =>
    match writeSome (b :: bs) r.remote with
    | (.pending, remote) => .stop .waiting { r with remote }
    | (.failed e, remote) => .stop (.failed (.remote e)) { r with remote }
    | (.ready rest, remote) => .next { r with remote, up := .writing rest size }
  | .flushing size =>
    match ByteStream.flush r.remote with
    | (.pending, remote) => .stop .waiting { r with remote }
    | (.failed e, remote) => .stop (.failed (.remote e)) { r with remote }
    | (.ready (), remote) =>
      .next { r with remote, up := .pulling, upCount := r.upCount + .ofNat size }
  | .ending =>
    match ByteStream.shutdown r.remote with
    | (.pending, remote) => .stop .waiting { r with remote }
    | (.failed e, remote) => .stop (.failed (.remote e)) { r with remote }
    | (.ready (), remote) => .stop .done { r with remote }

/-! ### From the remote stream to the client -/

omit [ByteStream σ] in
/-- Hands over the chunk in the slot. -/
def deliver (chunk : Bytes) (r : Relay σ) : Step σ :=
  if r.channel.blocked then .stop .waiting r
  else
    match r.channel.handOver (.binary chunk) with
    | (.error e, channel) => .stop (.failed (.channel e)) { r with channel, slot := none }
    | (.ok (), channel) => .next { r with channel, slot := none }

/-- A step of the direction to the client. -/
def stepDown (r : Relay σ) : Step σ :=
  match r.down with
  | .reading =>
    match ByteStream.read chunkSize r.remote with
    | (.pending, remote) => .stop .waiting { r with remote }
    | (.failed e, remote) => .stop (.failed (.remote e)) { r with remote }
    | (.ready [], remote) => .next { r with remote, down := .ending }
    | (.ready (b :: bs), remote) =>
      .next { r with remote, slot := some (b :: bs), down := .sending (b :: bs).length }
  | .sending size =>
    match r.slot with
    | some chunk => r.deliver chunk
    | none =>
      if r.channel.flushBlocked then .stop .waiting r
      else .next { r with down := .reading, downCount := r.downCount + .ofNat size }
  | .ending =>
    match r.channel.close with
    | (.error e, channel) => .stop (.failed (.channel e)) { r with channel }
    | (.ok (), channel) => .stop .done { r with channel }

omit [ByteStream σ] in
/-- A step of closing the channel after the client is done. -/
def stepClosing (r : Relay σ) : Step σ :=
  match r.slot with
  | some chunk => r.deliver chunk
  | none => .stop .done { r with channel := r.channel.close.2 }

/-! ### The whole -/

/-- A step of a task. -/
def step (t : Task) (r : Relay σ) : Step σ :=
  match t with
  | .up => r.stepUp
  | .down => r.stepDown
  | .closing => r.stepClosing

/-- What there is to pull or read before a task has to wait, and the steps until then. -/
def left (t : Task) (r : Relay σ) : Nat × Nat :=
  match t with
  | .up =>
    (r.channel.items.length,
      match r.up with
      | .pulling | .ending => 0
      | .flushing _ => 1
      | .writing rest _ => 2 + rest.length)
  | .down =>
    (ByteStream.backlog r.remote,
      match r.down with
      | .ending => 0
      | .reading => 1
      | .sending _ => 2 + r.slot.toList.length)
  | .closing => (0, r.slot.toList.length)

omit [ByteStream σ] in
theorem left_deliver {chunk : Bytes} {r r' : Relay σ} (hs : r.slot = some chunk)
    (h : r.deliver chunk = .next r') :
    r'.remote = r.remote ∧ r'.down = r.down ∧ r'.slot.toList.length < r.slot.toList.length := by
  unfold deliver at h
  split at h
  · cases h
  · split at h
    · cases h
    · cases h
      rw [hs]
      exact ⟨rfl, rfl, Nat.one_pos⟩

theorem left_lt {t : Task} {r r' : Relay σ} (h : r.step t = .next r') :
    Prod.Lex (· < ·) (· < ·) (r'.left t) (r.left t) := by
  cases t with
  | up =>
    simp only [step, stepUp] at h
    split at h
    · split at h
      · cases h
      · next hitems =>
        split at h <;> cases h
        left
        simp [hitems]
    · next hup =>
      cases h
      right
      simp [hup]
    · next hup =>
      split at h <;> cases h
      next hw =>
      have hlt := length_writeSome_lt hw
      right
      simpa [hup] using hlt
    · next hup =>
      split at h <;> cases h
      right
      simp [hup]
    · split at h <;> cases h
  | down =>
    simp only [step, stepDown] at h
    split at h
    · next hdown =>
      split at h <;> cases h
      · next hr =>
        have hle := ByteStream.backlog_read_le chunkSize r.remote
        rw [hr] at hle
        refine Measure.lex_of_le hle ?_
        simp [hdown]
      · next hr =>
        left
        exact ByteStream.backlog_lt hr (by simp)
    · next hdown =>
      split at h
      · next hs =>
        obtain ⟨hremote, hdown', hslot⟩ := left_deliver hs h
        refine Measure.lex_of_le (Nat.le_of_eq (congrArg _ hremote)) ?_
        rw [hdown', hdown]
        exact Nat.add_lt_add_left hslot 2
      · split at h <;> cases h
        right
        simp only [hdown]
        omega
    · split at h <;> cases h
  | closing =>
    simp only [step, stepClosing] at h
    split at h
    · next hs =>
      right
      exact (left_deliver hs h).2.2
    · cases h

/-- Takes steps of a task until one stops. -/
def go (t : Task) (r : Relay σ) : Progress × Relay σ :=
  match _h : r.step t with
  | .stop p r => (p, r)
  | .next r => go t r
termination_by r.left t
decreasing_by exact left_lt _h

/-- Whether there is something to do on a task. -/
def isDue (t : Task) (s : Stage) : Bool :=
  match t, s with
  | .up, .open => true
  | .down, .open => true
  | .closing, .closing => true
  | _, _ => false

omit [ByteStream σ] in
/-- What becomes of the relay when a task stops. That the channel fails when it is closed after the
client is done changes nothing. -/
def after (t : Task) (p : Progress) (r : Relay σ) : Relay σ :=
  match t, p with
  | _, .waiting => r
  | .up, .done => { r with stage := .closing }
  | .up, .failed e => { r with stage := .ended (.error e) }
  | .down, .done => { r with stage := .ended (.ok ⟨.outbound, 0, r.downCount⟩) }
  | .down, .failed e => { r with stage := .ended (.error e) }
  | .closing, _ => { r with stage := .ended (.ok ⟨.inbound, r.upCount, 0⟩) }

/-- Goes on with a task, if it is due, until it has to wait. -/
def turn (t : Task) (r : Relay σ) : Relay σ :=
  if isDue t r.stage then
    let (p, r) := r.go t
    r.after t p
  else r

/-- Goes on with the relay until it has to wait or has ended: first to the remote stream, then to
the client. -/
def poll (r : Relay σ) : Relay σ :=
  ((r.turn .up).turn .down).turn .closing

end Relay

end Switchyard
