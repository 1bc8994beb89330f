import Switchyard.Proofs.Session.Steps

/-!
# The sides of a relay

Each direction of a relay works on a side of its own: the one to the client on what can be read from
the remote stream and on how the channel takes messages, the one to the remote stream on the items
that arrive and on how the remote stream takes bytes (`Half`). A step calls and does the same wherever
its own side is the same (`Relay.step_down_alike`, `Relay.step_up_alike`), and leaves the other side as
it is.
-/

namespace Switchyard

/-- A part of a remote stream that settles how the calls of one kind are answered, and that the other
calls leave as it is. -/
structure Half {σ ρ : Type} [ByteStream σ] (kind : Call → Bool) (part : σ → ρ) : Prop where
  same {s s' t : σ} {x : Call} : Relay.Answered s x t → kind x = true → part s = part s' →
    ∃ t', Relay.Answered s' x t' ∧ part t' = part t
  other {s t : σ} {x : Call} : Relay.Answered s x t → kind x = false → part t = part s

/-- Calls of the direction to the remote stream. -/
def Call.isUp (x : Call) : Bool := !x.isDown

namespace Relay

variable {σ ρ ω : Type}

/-! ### What each direction works on -/

/-- The side of the direction to the client. -/
structure DownPart (ρ : Type) where
  slot : Option Bytes
  down : DownPhase
  downCount : UInt64
  blocked : Bool
  flushBlocked : Bool
  sendError : Option ChannelError
  closeError : Option ChannelError
  sent : List Message
  isClosed : Bool
  remote : ρ

/-- The side of the direction to the remote stream. -/
structure UpPart (ω : Type) where
  items : List Item
  pulled : Nat
  up : UpPhase
  upCount : UInt64
  remote : ω

def downPart (part : σ → ρ) (r : Relay σ) : DownPart ρ where
  slot := r.slot
  down := r.down
  downCount := r.downCount
  blocked := r.channel.blocked
  flushBlocked := r.channel.flushBlocked
  sendError := r.channel.sendError
  closeError := r.channel.closeError
  sent := r.channel.sent
  isClosed := r.channel.isClosed
  remote := part r.remote

def upPart (part : σ → ω) (r : Relay σ) : UpPart ω where
  items := r.channel.items
  pulled := r.channel.pulled
  up := r.up
  upCount := r.upCount
  remote := part r.remote

@[simp] theorem after_downPart (part : σ → ρ) (t : Task) (p : Progress) (r : Relay σ) :
    (r.after t p).downPart part = r.downPart part := by
  cases t <;> cases p <;> rfl

@[simp] theorem after_upPart (part : σ → ω) (t : Task) (p : Progress) (r : Relay σ) :
    (r.after t p).upPart part = r.upPart part := by
  cases t <;> cases p <;> rfl

/-- The relay has not ended. -/
def Running (r : Relay σ) : Prop :=
  ∀ result, r.stage ≠ .ended result

/-- Two steps that come to the same for one who sees a part of the relay only. -/
inductive Alike {α : Type} (view : Relay σ → α) : Step σ → Step σ → Prop
  | next {r r' : Relay σ} : view r = view r' → Alike view (.next r) (.next r')
  | stop {p : Progress} {r r' : Relay σ} : view r = view r' → Alike view (.stop p r) (.stop p r')

theorem deliver_alike {part : σ → ρ} {r r' : Relay σ} (chunk : Bytes)
    (h : r.downPart part = r'.downPart part) :
    r.callsDeliver chunk = r'.callsDeliver chunk ∧
      Alike (downPart part) (r.deliver chunk) (r'.deliver chunk) := by
  obtain ⟨⟨items, pulled, blocked, flushBlocked, sendError, closeError, sent, isClosed⟩, remote,
    slot, up, down, upCount, downCount, stage⟩ := r
  obtain ⟨⟨items', pulled', _, _, _, _, _, _⟩, remote', _, up', _, upCount', _, stage'⟩ := r'
  simp only [downPart, DownPart.mk.injEq] at h
  obtain ⟨rfl, rfl, rfl, rfl, rfl, rfl, rfl, rfl, rfl, hpart⟩ := h
  cases blocked with
  | true => exact ⟨rfl, .stop (by simp [downPart, hpart])⟩
  | false =>
    cases sendError with
    | none => exact ⟨rfl, .next (by simp [downPart, hpart])⟩
    | some e => exact ⟨rfl, .stop (by simp [downPart, hpart])⟩

variable [ByteStream σ] {r r' : Relay σ} {calls : List Call} {s : Step σ}

/-! ### A step sees its own side only -/

theorem step_down_alike {part : σ → ρ} (hp : Half Call.isDown part)
    (h : r.downPart part = r'.downPart part) :
    r.calls .down = r'.calls .down ∧ Alike (downPart part) (r.step .down) (r'.step .down) := by
  have hdeliver (chunk : Bytes) := deliver_alike chunk h
  obtain ⟨⟨items, pulled, blocked, flushBlocked, sendError, closeError, sent, isClosed⟩, remote,
    slot, up, down, upCount, downCount, stage⟩ := r
  obtain ⟨⟨items', pulled', _, _, _, _, _, _⟩, remote', _, up', _, upCount', _, stage'⟩ := r'
  simp only [downPart, DownPart.mk.injEq] at h
  obtain ⟨rfl, rfl, rfl, rfl, rfl, rfl, rfl, rfl, rfl, hpart⟩ := h
  simp only [Relay.calls, callsDown, step, stepDown]
  cases down with
  | reading =>
    rcases hr : ByteStream.read chunkSize remote with ⟨answer, t⟩
    obtain ⟨t', hanswered, ht⟩ := hp.same (.read hr) rfl hpart
    cases hanswered with
    | read hr' =>
      rw [hr']
      refine ⟨rfl, ?_⟩
      cases answer with
      | pending => exact .stop (by simp [downPart, ht])
      | failed e => exact .stop (by simp [downPart, ht])
      | ready bs => cases bs <;> exact .next (by simp [downPart, ht])
  | sending size =>
    cases slot with
    | some chunk => exact hdeliver chunk
    | none =>
      cases flushBlocked with
      | true => exact ⟨rfl, .stop (by simp [downPart, hpart])⟩
      | false => exact ⟨rfl, .next (by simp [downPart, hpart])⟩
  | ending =>
    cases closeError <;> exact ⟨rfl, .stop (by simp [downPart, hpart])⟩

theorem step_up_alike {part : σ → ω} (hp : Half Call.isUp part)
    (h : r.upPart part = r'.upPart part) :
    r.calls .up = r'.calls .up ∧ Alike (upPart part) (r.step .up) (r'.step .up) := by
  obtain ⟨⟨items, pulled, blocked, flushBlocked, sendError, closeError, sent, isClosed⟩, remote,
    slot, up, down, upCount, downCount, stage⟩ := r
  obtain ⟨⟨_, _, blocked', flushBlocked', sendError', closeError', sent', isClosed'⟩, remote',
    slot', _, down', _, downCount', stage'⟩ := r'
  simp only [upPart, UpPart.mk.injEq] at h
  obtain ⟨rfl, rfl, rfl, rfl, hpart⟩ := h
  simp only [Relay.calls, callsUp, step, stepUp]
  cases up with
  | pulling =>
    refine ⟨rfl, ?_⟩
    cases items with
    | nil => exact .stop (by simp [upPart, hpart])
    | cons item items =>
      dsimp only
      cases afterItem item with
      | ok up => exact .next (by simp [upPart, hpart])
      | error e => exact .stop (by simp [upPart, hpart])
  | writing rest size =>
    cases rest with
    | nil => exact ⟨rfl, .next (by simp [upPart, hpart])⟩
    | cons b bs =>
      rcases hw : ByteStream.write (b :: bs) remote with ⟨answer, t⟩
      obtain ⟨t', hanswered, ht⟩ := hp.same (.write hw) rfl hpart
      cases hanswered with
      | write hw' =>
        simp only [writeSome, hw, hw', true_and]
        cases answer with
        | pending => exact .stop (by simp [upPart, ht])
        | failed e => exact .stop (by simp [upPart, ht])
        | ready n =>
          cases n with
          | zero => exact .stop (by simp [upPart, ht])
          | succ n => exact .next (by simp [upPart, ht])
  | flushing size =>
    rcases hf : ByteStream.flush remote with ⟨answer, t⟩
    obtain ⟨t', hanswered, ht⟩ := hp.same (.flush hf) rfl hpart
    cases hanswered with
    | flush hf' =>
      simp only [hf', true_and]
      cases answer with
      | pending => exact .stop (by simp [upPart, ht])
      | failed e => exact .stop (by simp [upPart, ht])
      | ready _ => exact .next (by simp [upPart, ht])
  | ending =>
    rcases hs : ByteStream.shutdown remote with ⟨answer, t⟩
    obtain ⟨t', hanswered, ht⟩ := hp.same (.shutdown hs) rfl hpart
    cases hanswered with
    | shutdown hs' =>
      simp only [hs', true_and]
      cases answer <;> exact .stop (by simp [upPart, ht])

/-- What becomes of a task that stops is settled behind the step (`after`). -/
theorem stage_of_stop {t : Task} {p : Progress} (h : r.step t = .stop p r') :
    r'.stage = r.stage := by
  cases t with
  | up =>
    have hstep := r.upStep
    generalize r.calls .up = calls at hstep
    rw [h] at hstep
    cases hstep <;> rfl
  | down =>
    have hstep := r.downStep
    generalize r.calls .down = calls at hstep
    rw [h] at hstep
    cases hstep with
    | delivery _ _ hd => cases hd <;> rfl
    | _ => rfl
  | closing =>
    have hstep := r.closingStep
    generalize r.calls .closing = calls at hstep
    rw [h] at hstep
    cases hstep with
    | delivery _ hd => cases hd <;> rfl
    | closed _ _ => rfl

/-! ### A step leaves the other side alone -/

theorem UpStep.downPart_eq {part : σ → ρ} (hp : Half Call.isDown part) (h : UpStep r calls s) :
    (s.relay .up).downPart part = r.downPart part := by
  cases h with
  | took _ hx | flushed _ hx | shut _ hx => simp [downPart, hp.other hx rfl]
  | stalled hx hst => simp [downPart, hp.other hx (Call.isDown_of_isStalled hst)]
  | failed hx hf => simp [downPart, hp.other hx (Call.isDown_of_failure hf)]
  | _ => simp [downPart]

omit [ByteStream σ] in
theorem Delivery.upPart_eq {chunk : Bytes} (part : σ → ω) (t : Task)
    (h : Delivery chunk r calls s) : (s.relay t).upPart part = r.upPart part := by
  cases h <;> simp [upPart]

theorem DownStep.upPart_eq {part : σ → ω} (hp : Half Call.isUp part) (h : DownStep r calls s) :
    (s.relay .down).upPart part = r.upPart part := by
  cases h with
  | got _ hx | finished _ hx | starved _ hx | failed _ hx => simp [upPart, hp.other hx rfl]
  | delivery _ _ hd => exact hd.upPart_eq part .down
  | _ => simp [upPart]

end Relay

/-! ### The halves of a script -/

namespace Script

/-- What reads of a script depend on. -/
def reading (s : Script) : Script :=
  { idle with chunks := s.chunks, ended := s.ended, readError := s.readError }

/-- What the other calls of a script depend on, and what they leave there. -/
def writing (s : Script) : Script :=
  { s with chunks := [], ended := false, readError := none }

theorem read_reading (n : Nat) (s : Script) :
    s.reading.read n = ((s.read n).1, (s.read n).2.reading) := by
  obtain ⟨chunks, ended, readError⟩ := s
  cases chunks with
  | cons chunk chunks => rfl
  | nil =>
    cases readError with
    | some e => rfl
    | none => cases ended <;> rfl

theorem write_writing (bs : Bytes) (s : Script) :
    s.writing.write bs = ((s.write bs).1, (s.write bs).2.writing) := by
  obtain ⟨_, _, _, credit, takesNone, writeError⟩ := s
  cases writeError with
  | some e => rfl
  | none =>
    cases takesNone with
    | true => rfl
    | false =>
      cases credit with
      | none => rfl
      | some credit => by_cases h : credit = 0 ∧ bs ≠ [] <;> simp [write, writing, h]

theorem flush_writing (s : Script) : s.writing.flush = (s.flush.1, s.flush.2.writing) := by
  obtain ⟨_, _, _, _, _, _, flushError, _, flushBlocked⟩ := s
  cases flushError with
  | some e => rfl
  | none => cases flushBlocked <;> rfl

theorem shutdown_writing (s : Script) :
    s.writing.shutdown = (s.shutdown.1, s.shutdown.2.writing) := by
  obtain ⟨_, _, _, _, _, _, _, shutdownError, _, shutdownBlocked⟩ := s
  cases shutdownError with
  | some e => rfl
  | none => cases shutdownBlocked <;> rfl

/-- A call that a part settles gives the same answer wherever the part is the same. -/
theorem exists_alike {α : Type} {part : Script → Script} {call : Script → Poll α × Script}
    (hcall : ∀ s, call (part s) = ((call s).1, part (call s).2)) {s s' t : Script}
    {answer : Poll α} (h : call s = (answer, t)) (hs : part s = part s') :
    ∃ t', call s' = (answer, t') ∧ part t' = part t := by
  have hparts := hcall s
  rw [hs, hcall s', h, Prod.mk.injEq] at hparts
  exact ⟨(call s').2, Prod.ext hparts.1 rfl, hparts.2⟩

/-! Each call leaves alone the part that does not settle it. -/

@[simp] theorem reading_write (bs : Bytes) (s : Script) :
    (s.write bs).2.reading = s.reading := by
  unfold write
  repeat' split
  all_goals rfl

@[simp] theorem reading_flush (s : Script) : s.flush.2.reading = s.reading := by
  unfold flush
  repeat' split
  all_goals rfl

@[simp] theorem reading_shutdown (s : Script) : s.shutdown.2.reading = s.reading := by
  unfold shutdown
  repeat' split
  all_goals rfl

@[simp] theorem writing_read (n : Nat) (s : Script) : (s.read n).2.writing = s.writing := by
  unfold read
  repeat' split
  all_goals rfl

theorem half_reading : Half Call.isDown reading where
  same {s s' t x} h hx hs := by
    cases h with
    | read h =>
      obtain ⟨t', hread, ht⟩ := exists_alike (read_reading _) h hs
      exact ⟨t', .read hread, ht⟩
    | write _ | flush _ | shutdown _ => cases hx
  other {s t x} h hx := by
    cases h with
    | read _ => cases hx
    | write h => exact (congrArg (fun called => called.2.reading) h).symm.trans (reading_write _ s)
    | flush h => exact (congrArg (fun called => called.2.reading) h).symm.trans (reading_flush s)
    | shutdown h =>
      exact (congrArg (fun called => called.2.reading) h).symm.trans (reading_shutdown s)

theorem half_writing : Half Call.isUp writing where
  same {s s' t x} h hx hs := by
    cases h with
    | read _ => cases hx
    | @write bs _ _ h =>
      obtain ⟨t', hwrite, ht⟩ := exists_alike (write_writing bs) h hs
      exact ⟨t', .write hwrite, ht⟩
    | flush h =>
      obtain ⟨t', hflush, ht⟩ := exists_alike flush_writing h hs
      exact ⟨t', .flush hflush, ht⟩
    | shutdown h =>
      obtain ⟨t', hshutdown, ht⟩ := exists_alike shutdown_writing h hs
      exact ⟨t', .shutdown hshutdown, ht⟩
  other {s t x} h hx := by
    cases h with
    | read h => exact (congrArg (fun called => called.2.writing) h).symm.trans (writing_read _ s)
    | write _ | flush _ | shutdown _ => cases hx

end Script

end Switchyard
