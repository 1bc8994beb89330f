import Switchyard.Proofs.Session.Call

/-!
# The steps of a relay

What the next step of a task calls (`Relay.calls`), what it leaves behind (`Relay.act`), and all
that it can come to: `UpStep`, `DownStep` and `ClosingStep` have a case for each way that a step can
go. What became of the channel and of the remote stream agrees with the calls (`Traced`, `Asked`).
-/

namespace Switchyard

namespace Relay

variable {σ : Type}

/-- Handing over a chunk calls the channel, if it is ready. -/
def callsDeliver (chunk : Bytes) (r : Relay σ) : List Call :=
  if r.channel.blocked then []
  else [.send (.binary chunk) (r.channel.handOver (.binary chunk)).1]

def callsClosing (r : Relay σ) : List Call :=
  match r.slot with
  | some chunk => r.callsDeliver chunk
  | none => [.close r.channel.close.1]

/-- What a step of a task leaves behind. -/
def Step.relay (t : Task) : Step σ → Relay σ
  | next r => r
  | stop p r => r.after t p

@[simp] theorem Step.relay_next (t : Task) (r : Relay σ) : (Step.next r).relay t = r := rfl

@[simp] theorem Step.relay_stop (t : Task) (p : Progress) (r : Relay σ) :
    (Step.stop p r).relay t = r.after t p := rfl

section After

variable (t : Task) (p : Progress) (r : Relay σ)

@[simp] theorem after_waiting : r.after t .waiting = r := by cases t <;> rfl

@[simp] theorem after_channel : (r.after t p).channel = r.channel := by
  cases t <;> cases p <;> rfl

@[simp] theorem after_remote : (r.after t p).remote = r.remote := by cases t <;> cases p <;> rfl

@[simp] theorem after_slot : (r.after t p).slot = r.slot := by cases t <;> cases p <;> rfl

@[simp] theorem after_up : (r.after t p).up = r.up := by cases t <;> cases p <;> rfl

@[simp] theorem after_down : (r.after t p).down = r.down := by cases t <;> cases p <;> rfl

@[simp] theorem after_upCount : (r.after t p).upCount = r.upCount := by
  cases t <;> cases p <;> rfl

@[simp] theorem after_downCount : (r.after t p).downCount = r.downCount := by
  cases t <;> cases p <;> rfl

end After

theorem stage_of_isDue {t : Task} {s : Stage} (h : isDue t s = true) :
    s = match t with
      | .up | .down => .open
      | .closing => .closing := by
  cases t <;> cases s <;> first | rfl | cases h

/-- What the world does to a relay. -/
def change (w : Change σ) (r : Relay σ) : Relay σ :=
  { r with channel := w.channel r.channel, remote := w.remote r.remote }

/-! ### Handing over and closing -/

open Calls

/-- What becomes of the channel by calls: items are taken off it in order, messages are put on it,
and it is closed.
-/
structure Traced (c : Channel) (calls : List Call) (c' : Channel) : Prop where
  items : c.items = pulls calls ++ c'.items
  pulled : c'.pulled = c.pulled + (pulls calls).length
  sent : c'.sent = (handed calls).reverse ++ c.sent
  closed : c'.isClosed = true ↔ c.isClosed = true ∨ .close (.ok ()) ∈ calls

theorem Traced.refl (c : Channel) : Traced c [] c := ⟨rfl, rfl, rfl, by simp⟩

theorem Traced.close {c c' : Channel} {calls : List Call} (h : Traced c calls c') :
    Traced c (calls ++ [.close c'.close.1]) c'.close.2 := by
  have hclose : c'.close.2.items = c'.items ∧ c'.close.2.pulled = c'.pulled ∧
      c'.close.2.sent = c'.sent := by
    unfold Channel.close
    split <;> exact ⟨rfl, rfl, rfl⟩
  have hclosed : c'.close.2.isClosed = true ↔ c'.isClosed = true ∨ .ok () = c'.close.1 := by
    unfold Channel.close
    split <;> simp
  constructor
  · simpa [Call.pulled?, hclose.1] using h.items
  · simpa [Call.pulled?, hclose.2.1] using h.pulled
  · simpa [Call.handed?, hclose.2.2] using h.sent
  · rw [hclosed, h.closed, or_assoc, List.mem_append, List.mem_singleton, Call.close.injEq]

theorem Traced.handOver (c : Channel) (m : Message) :
    Traced c [.send m (c.handOver m).1] (c.handOver m).2 := by
  unfold Channel.handOver
  split <;> constructor <;> simp [Call.pulled?, Call.handed?]

/-- Handing over a chunk. -/
inductive Delivery (chunk : Bytes) (r : Relay σ) : List Call → Step σ → Prop
  | blocked : r.channel.blocked = true → Delivery chunk r [] (.stop .waiting r)
  | handed : Delivery chunk r [.send (.binary chunk) (.ok ())]
      (.next { r with
        channel := { r.channel with sent := .binary chunk :: r.channel.sent }
        slot := none })
  | refused {e : ChannelError} : Delivery chunk r [.send (.binary chunk) (.error e)]
      (.stop (.failed (.channel e)) { r with
        channel := { r.channel with sendError := none }
        slot := none })

theorem delivery (chunk : Bytes) (r : Relay σ) :
    Delivery chunk r (r.callsDeliver chunk) (r.deliver chunk) := by
  obtain ⟨⟨items, pulled, blocked, flushBlocked, sendError, closeError, sent, isClosed⟩, remote,
    slot, up, down, upCount, downCount, stage⟩ := r
  cases blocked with
  | true => exact .blocked rfl
  | false =>
    cases sendError with
    | none => exact .handed
    | some e => exact .refused

theorem Delivery.traced {chunk : Bytes} {r : Relay σ} {t : Task} {calls : List Call} {s : Step σ}
    (h : Delivery chunk r calls s) : Traced r.channel calls (s.relay t).channel := by
  cases h <;> constructor <;> simp [Call.pulled?, Call.handed?]

/-- A step makes one call at most. -/
theorem Delivery.calls_eq {chunk : Bytes} {r : Relay σ} {calls : List Call} {s : Step σ}
    (h : Delivery chunk r calls s) : calls = [] ∨ ∃ x, calls = [x] := by
  cases h with
  | blocked _ => exact .inl rfl
  | _ => exact .inr ⟨_, rfl⟩

/-- A step of closing the channel after the client is done. -/
inductive ClosingStep (r : Relay σ) : List Call → Step σ → Prop
  | delivery {chunk : Bytes} {calls : List Call} {s : Step σ} :
      r.slot = some chunk → Delivery chunk r calls s → ClosingStep r calls s
  | closed {answer : Except ChannelError Unit} {channel : Channel} :
      r.slot = none → r.channel.close = (answer, channel) →
      ClosingStep r [.close answer] (.stop .done { r with channel })

theorem ClosingStep.traced {r : Relay σ} {calls : List Call} {s : Step σ}
    (h : ClosingStep r calls s) : Traced r.channel calls (s.relay .closing).channel := by
  cases h with
  | delivery _ hd => exact hd.traced
  | closed _ hc =>
    have ht := (Traced.refl r.channel).close
    rwa [hc] at ht

theorem ClosingStep.calls_eq {r : Relay σ} {calls : List Call} {s : Step σ}
    (h : ClosingStep r calls s) : calls = [] ∨ ∃ x, calls = [x] := by
  cases h with
  | delivery _ hd => exact hd.calls_eq
  | closed _ _ => exact .inr ⟨_, rfl⟩

/-! ### Both directions -/

variable [ByteStream σ]

def callsUp (r : Relay σ) : List Call :=
  match r.up with
  | .pulling => (r.channel.items.head?.map Call.pull).toList
  | .writing [] _ => []
  | .writing (b :: bs) _ => [.write (b :: bs) (ByteStream.write (b :: bs) r.remote).1]
  | .flushing _ => [.flush (ByteStream.flush r.remote).1]
  | .ending => [.shutdown (ByteStream.shutdown r.remote).1]

def callsDown (r : Relay σ) : List Call :=
  match r.down with
  | .reading => [.read (ByteStream.read chunkSize r.remote).1]
  | .sending _ =>
    match r.slot with
    | some chunk => r.callsDeliver chunk
    | none => if r.channel.flushBlocked then [] else [.settle]
  | .ending => [.close r.channel.close.1]

/-- What the next step of a task calls. -/
def calls (t : Task) (r : Relay σ) : List Call :=
  match t with
  | .up => r.callsUp
  | .down => r.callsDown
  | .closing => r.callsClosing

/-- The relay after a step of a task. -/
def act (t : Task) (r : Relay σ) : Relay σ :=
  (r.step t).relay t

/-! ### What a step can come to -/

/-- A remote stream answers a call and is another one then. -/
inductive Answered (s : σ) : Call → σ → Prop
  | read {answer : Poll Bytes} {s' : σ} : ByteStream.read chunkSize s = (answer, s') →
      Answered s (.read answer) s'
  | write {bs : Bytes} {answer : Poll Nat} {s' : σ} : ByteStream.write bs s = (answer, s') →
      Answered s (.write bs answer) s'
  | flush {answer : Poll Unit} {s' : σ} : ByteStream.flush s = (answer, s') →
      Answered s (.flush answer) s'
  | shutdown {answer : Poll Unit} {s' : σ} : ByteStream.shutdown s = (answer, s') →
      Answered s (.shutdown answer) s'

/-- A step of the direction to the remote stream. -/
inductive UpStep (r : Relay σ) : List Call → Step σ → Prop
  | idle : r.up = .pulling → r.channel.items = [] → UpStep r [] (.stop .waiting r)
  | pulled {item : Item} {items : List Item} {up : UpPhase} :
      r.up = .pulling → r.channel.items = item :: items → afterItem item = .ok up →
      UpStep r [.pull item] (.next { r with
        channel := { r.channel with items, pulled := r.channel.pulled + 1 }
        up })
  | faulty {item : Item} {items : List Item} {e : ChannelError} :
      r.up = .pulling → r.channel.items = item :: items → afterItem item = .error e →
      UpStep r [.pull item] (.stop (.failed (.channel e)) { r with
        channel := { r.channel with items, pulled := r.channel.pulled + 1 } })
  | wrote {size : Nat} : r.up = .writing [] size →
      UpStep r [] (.next { r with up := .flushing size })
  | took {b : UInt8} {bs : Bytes} {size n : Nat} {remote : σ} :
      r.up = .writing (b :: bs) size →
      Answered r.remote (.write (b :: bs) (.ready (n + 1))) remote →
      UpStep r [.write (b :: bs) (.ready (n + 1))]
        (.next { r with remote, up := .writing ((b :: bs).drop (n + 1)) size })
  | flushed {size : Nat} {remote : σ} : r.up = .flushing size →
      Answered r.remote (.flush (.ready ())) remote →
      UpStep r [.flush (.ready ())]
        (.next { r with remote, up := .pulling, upCount := r.upCount + .ofNat size })
  | shut {remote : σ} : r.up = .ending →
      Answered r.remote (.shutdown (.ready ())) remote →
      UpStep r [.shutdown (.ready ())] (.stop .done { r with remote })
  | stalled {x : Call} {remote : σ} : Answered r.remote x remote → x.isStalled = true →
      UpStep r [x] (.stop .waiting { r with remote })
  | failed {x : Call} {e : StreamError} {remote : σ} : Answered r.remote x remote →
      x.failure? = some e →
      UpStep r [x] (.stop (.failed (.remote e)) { r with remote })

theorem upStep (r : Relay σ) : UpStep r (r.calls .up) (r.step .up) := by
  obtain ⟨⟨items, pulled, blocked, flushBlocked, sendError, closeError, sent, isClosed⟩, remote,
    slot, up, down, upCount, downCount, stage⟩ := r
  simp only [calls, callsUp, step, stepUp]
  cases up with
  | pulling =>
    cases items with
    | nil => exact .idle rfl rfl
    | cons item items =>
      dsimp only
      cases hi : afterItem item with
      | ok up => exact .pulled rfl rfl hi
      | error e => exact .faulty rfl rfl hi
  | writing rest size =>
    cases rest with
    | nil => exact .wrote rfl
    | cons b bs =>
      dsimp only [writeSome]
      rcases hw : ByteStream.write (b :: bs) remote with ⟨answer, remote⟩
      cases answer with
      | pending => exact .stalled (.write hw) rfl
      | failed e => exact .failed (.write hw) rfl
      | ready n =>
        cases n with
        | zero => exact .failed (.write hw) rfl
        | succ n => exact .took rfl (.write hw)
  | flushing size =>
    dsimp only
    rcases hf : ByteStream.flush remote with ⟨answer, remote⟩
    cases answer with
    | pending => exact .stalled (.flush hf) rfl
    | failed e => exact .failed (.flush hf) rfl
    | ready _ => exact .flushed rfl (.flush hf)
  | ending =>
    dsimp only
    rcases hs : ByteStream.shutdown remote with ⟨answer, remote⟩
    cases answer with
    | pending => exact .stalled (.shutdown hs) rfl
    | failed e => exact .failed (.shutdown hs) rfl
    | ready _ => exact .shut rfl (.shutdown hs)

/-- A step of the direction to the client. -/
inductive DownStep (r : Relay σ) : List Call → Step σ → Prop
  | got {b : UInt8} {bs : Bytes} {remote : σ} : r.down = .reading →
      Answered r.remote (.read (.ready (b :: bs))) remote →
      DownStep r [.read (.ready (b :: bs))] (.next { r with
        remote, slot := some (b :: bs), down := .sending (b :: bs).length })
  | finished {remote : σ} : r.down = .reading →
      Answered r.remote (.read (.ready [])) remote →
      DownStep r [.read (.ready [])] (.next { r with remote, down := .ending })
  | starved {remote : σ} : r.down = .reading → Answered r.remote (.read .pending) remote →
      DownStep r [.read .pending] (.stop .waiting { r with remote })
  | failed {e : StreamError} {remote : σ} : r.down = .reading →
      Answered r.remote (.read (.failed e)) remote →
      DownStep r [.read (.failed e)] (.stop (.failed (.remote e)) { r with remote })
  | delivery {size : Nat} {chunk : Bytes} {calls : List Call} {s : Step σ} :
      r.down = .sending size → r.slot = some chunk → Delivery chunk r calls s →
      DownStep r calls s
  | unsettled {size : Nat} : r.down = .sending size → r.slot = none →
      r.channel.flushBlocked = true → DownStep r [] (.stop .waiting r)
  | settled {size : Nat} : r.down = .sending size → r.slot = none →
      DownStep r [.settle] (.next { r with down := .reading, downCount := r.downCount + .ofNat size })
  | closed : r.down = .ending →
      DownStep r [.close (.ok ())]
        (.stop .done { r with channel := { r.channel with isClosed := true } })
  | unclosed {e : ChannelError} : r.down = .ending →
      DownStep r [.close (.error e)] (.stop (.failed (.channel e))
        { r with channel := { r.channel with closeError := none } })

theorem downStep (r : Relay σ) : DownStep r (r.calls .down) (r.step .down) := by
  obtain ⟨⟨items, pulled, blocked, flushBlocked, sendError, closeError, sent, isClosed⟩, remote,
    slot, up, down, upCount, downCount, stage⟩ := r
  simp only [calls, callsDown, step, stepDown]
  cases down with
  | reading =>
    dsimp only
    rcases hr : ByteStream.read chunkSize remote with ⟨answer, remote⟩
    cases answer with
    | pending => exact .starved rfl (.read hr)
    | failed e => exact .failed rfl (.read hr)
    | ready bs =>
      cases bs with
      | nil => exact .finished rfl (.read hr)
      | cons b bs => exact .got rfl (.read hr)
  | sending size =>
    cases slot with
    | some chunk => exact .delivery rfl rfl (delivery chunk _)
    | none =>
      cases flushBlocked with
      | true => exact .unsettled rfl rfl rfl
      | false => exact .settled rfl rfl
  | ending =>
    cases closeError with
    | none => exact .closed rfl
    | some e => exact .unclosed rfl

theorem closingStep (r : Relay σ) : ClosingStep r (r.calls .closing) (r.step .closing) := by
  obtain ⟨channel, remote, slot, up, down, upCount, downCount, stage⟩ := r
  cases slot with
  | some chunk => exact .delivery rfl (delivery chunk _)
  | none => exact .closed rfl rfl

/-- A step that another one can follow leaves the stage as it is. -/
theorem stage_of_next {t : Task} {r r' : Relay σ} (h : r.step t = .next r') :
    r'.stage = r.stage := by
  cases t with
  | up =>
    have hstep := r.upStep
    generalize r.calls .up = calls at hstep
    rw [h] at hstep
    cases hstep <;> rfl
  | down =>
    have hstep := r.downStep
    generalize r.calls .down = calls at hstep
    rw [h] at hstep
    cases hstep with
    | delivery _ _ hd => cases hd; rfl
    | _ => rfl
  | closing =>
    have hstep := r.closingStep
    generalize r.calls .closing = calls at hstep
    rw [h] at hstep
    cases hstep with
    | delivery _ hd => cases hd; rfl

theorem Answered.silent {s s' : σ} {x : Call} (h : Answered s x s') :
    x.pulled? = none ∧ x.handed? = none := by
  cases h <;> exact ⟨rfl, rfl⟩

theorem Answered.ne_close {s s' : σ} {x : Call} {answer : Except ChannelError Unit}
    (h : Answered s x s') : .close answer ≠ x := by
  rintro rfl
  cases h

theorem UpStep.traced {r : Relay σ} {calls : List Call} {s : Step σ} (h : UpStep r calls s) :
    Traced r.channel calls (s.relay .up).channel := by
  cases h with
  | pulled _ hitems _ | faulty _ hitems _ =>
    constructor <;> simp [Call.pulled?, Call.handed?, hitems]
  | stalled hx _ | failed hx _ => constructor <;> simp [hx.silent, hx.ne_close]
  | _ => constructor <;> simp [Call.pulled?, Call.handed?]

theorem DownStep.traced {r : Relay σ} {calls : List Call} {s : Step σ} (h : DownStep r calls s) :
    Traced r.channel calls (s.relay .down).channel := by
  cases h with
  | delivery _ _ hd => exact hd.traced
  | _ => constructor <;> simp [Call.pulled?, Call.handed?]

/-- What becomes of the remote stream by calls: it has answered the one that was made of it. -/
inductive Asked (s : σ) : List Call → σ → Prop
  | none {calls : List Call} : taken calls = [] → chunks calls = [] → Asked s calls s
  | one {x : Call} {s' : σ} : Answered s x s' → Asked s [x] s'

theorem Delivery.asked {chunk : Bytes} {r : Relay σ} {t : Task} {calls : List Call} {s : Step σ}
    (h : Delivery chunk r calls s) : Asked r.remote calls (s.relay t).remote := by
  cases h <;> simpa using Asked.none rfl rfl

theorem UpStep.asked {r : Relay σ} {calls : List Call} {s : Step σ} (h : UpStep r calls s) :
    Asked r.remote calls (s.relay .up).remote := by
  cases h with
  | took _ hx | flushed _ hx | shut _ hx | stalled hx _ | failed hx _ => exact .one hx
  | _ => simpa using Asked.none rfl rfl

theorem DownStep.asked {r : Relay σ} {calls : List Call} {s : Step σ} (h : DownStep r calls s) :
    Asked r.remote calls (s.relay .down).remote := by
  cases h with
  | got _ hx | finished _ hx | starved _ hx | failed _ hx => exact .one hx
  | delivery _ _ hd => exact hd.asked
  | _ => simpa using Asked.none rfl rfl

theorem ClosingStep.asked {r : Relay σ} {calls : List Call} {s : Step σ}
    (h : ClosingStep r calls s) : Asked r.remote calls (s.relay .closing).remote := by
  cases h with
  | delivery _ hd => exact hd.asked
  | closed _ _ => simpa using Asked.none rfl rfl

/-! ### How many calls there are -/

theorem UpStep.calls_eq {r : Relay σ} {calls : List Call} {s : Step σ}
    (h : UpStep r calls s) : calls = [] ∨ ∃ x, calls = [x] := by
  cases h with
  | idle _ _ | wrote _ => exact .inl rfl
  | _ => exact .inr ⟨_, rfl⟩

theorem DownStep.calls_eq {r : Relay σ} {calls : List Call} {s : Step σ}
    (h : DownStep r calls s) : calls = [] ∨ ∃ x, calls = [x] := by
  cases h with
  | delivery _ _ hd => exact hd.calls_eq
  | unsettled _ _ _ => exact .inl rfl
  | _ => exact .inr ⟨_, rfl⟩

theorem calls_eq (t : Task) (r : Relay σ) :
    r.calls t = [] ∨ ∃ x, r.calls t = [x] := by
  cases t with
  | up => exact r.upStep.calls_eq
  | down => exact r.downStep.calls_eq
  | closing => exact r.closingStep.calls_eq

end Relay

end Switchyard
