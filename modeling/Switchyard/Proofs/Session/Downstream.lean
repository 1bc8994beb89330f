import Switchyard.Proofs.Session.Course

/-!
# From the remote stream to the client

Every chunk that is read becomes one binary message, and no other chunk is read before that one was
handed over and flushed. `Passed` says that nothing is under way; otherwise the last chunk waits in
the slot (`Waiting`), or it was handed over or refused (`Given`), and `Held` ties this to what the
direction is doing. So a chunk that waits when the client is done is still there to be delivered,
and the channel is closed behind it.
-/

namespace Switchyard

namespace Calls

/-- Every chunk that was read was handed over, and flushed, before another one was read. -/
inductive Passed : List Call → Prop
  | nil : Passed []
  | other {calls : List Call} {x : Call} : Passed calls → x.chunk? = none → x.handed? = none →
      Passed (calls ++ [x])
  | chunk {before since since' : List Call} {b : UInt8} {bs : Bytes} : Passed before →
      chunks since = [] → handed since = [] → chunks since' = [] → handed since' = [] →
      Passed (before ++ .read (.ready (b :: bs)) ::
        (since ++ .send (.binary (b :: bs)) (.ok ()) :: (since' ++ [.settle])))

/-- The last chunk that was read was not handed over yet. -/
def Waiting (chunk : Bytes) (calls : List Call) : Prop :=
  ∃ before b bs since, calls = before ++ .read (.ready (b :: bs)) :: since ∧ chunk = b :: bs ∧
    Passed before ∧ chunks since = [] ∧ handed since = []

/-- The last chunk that was read was given to the channel, with this answer. -/
def Given (chunk : Bytes) (answer : Except ChannelError Unit) (calls : List Call) : Prop :=
  ∃ before since, calls = before ++ .send (.binary chunk) answer :: since ∧ Waiting chunk before ∧
    chunks since = [] ∧ handed since = []

/-- The last call was to close the channel, or it was a chunk that the channel has refused. -/
def ClosesLast (calls : List Call) : Prop :=
  ∃ before x, calls = before ++ [x] ∧
    ((∃ answer, x = .close answer) ∨ ∃ chunk e, x = .send (.binary chunk) (.error e))

variable {calls : List Call} {chunk : Bytes} {answer : Except ChannelError Unit} {x : Call}

theorem Passed.read (h : Passed calls) (b : UInt8) (bs : Bytes) :
    Waiting (b :: bs) (calls ++ [.read (.ready (b :: bs))]) :=
  ⟨calls, b, bs, [], rfl, rfl, h, rfl, rfl⟩

theorem Waiting.concat (h : Waiting chunk calls) (hc : x.chunk? = none) (hh : x.handed? = none) :
    Waiting chunk (calls ++ [x]) := by
  obtain ⟨before, b, bs, since, rfl, rfl, hp, hsc, hsh⟩ := h
  exact ⟨before, b, bs, since ++ [x], by simp, rfl, hp, by simp [hsc, hc], by simp [hsh, hh]⟩

theorem Waiting.send (h : Waiting chunk calls) (answer : Except ChannelError Unit) :
    Given chunk answer (calls ++ [.send (.binary chunk) answer]) :=
  ⟨calls, [], rfl, h, rfl, rfl⟩

theorem Given.concat (h : Given chunk answer calls) (hc : x.chunk? = none) (hh : x.handed? = none) :
    Given chunk answer (calls ++ [x]) := by
  obtain ⟨before, since, rfl, hw, hsc, hsh⟩ := h
  exact ⟨before, since ++ [x], by simp, hw, by simp [hsc, hc], by simp [hsh, hh]⟩

theorem Given.settle (h : Given chunk (.ok ()) calls) : Passed (calls ++ [.settle]) := by
  obtain ⟨_, since', rfl, ⟨before, b, bs, since, rfl, rfl, hp, hsc, hsh⟩, hsc', hsh'⟩ := h
  simpa using hp.chunk hsc hsh hsc' hsh'

theorem Passed.chunks_eq (h : Passed calls) : (chunks calls).map .binary = handed calls := by
  induction h with
  | nil => rfl
  | other _ hc hh ih => simp [ih, hc, hh]
  | chunk _ hsc hsh hsc' hsh' ih => simp [ih, hsc, hsh, hsc', hsh', Call.chunk?, Call.handed?]

theorem Waiting.chunks_eq (h : Waiting chunk calls) :
    (chunks calls).map .binary = handed calls ++ [.binary chunk] := by
  obtain ⟨before, b, bs, since, rfl, rfl, hp, hsc, hsh⟩ := h
  simp [hp.chunks_eq, hsc, hsh, Call.chunk?, Call.handed?]

theorem Given.chunks_eq_of_ok (h : Given chunk (.ok ()) calls) :
    (chunks calls).map .binary = handed calls := by
  obtain ⟨before, since, rfl, hw, hsc, hsh⟩ := h
  simp [hw.chunks_eq, hsc, hsh, Call.chunk?, Call.handed?]

theorem Given.chunks_eq_of_error {e : ChannelError} (h : Given chunk (.error e) calls) :
    (chunks calls).map .binary = handed calls ++ [.binary chunk] := by
  obtain ⟨before, since, rfl, hw, hsc, hsh⟩ := h
  simp [hw.chunks_eq, hsc, hsh, Call.chunk?, Call.handed?]

end Calls

namespace Relay

open Calls

/-- Where the last chunk is. -/
inductive Held : Option Bytes → DownPhase → List Call → Prop
  | reading {calls : List Call} : Passed calls → Held none .reading calls
  | ending {calls : List Call} : Passed calls → Held none .ending calls
  | waiting {chunk : Bytes} {calls : List Call} : Waiting chunk calls →
      Held (some chunk) (.sending chunk.length) calls
  | given {chunk : Bytes} {calls : List Call} : Given chunk (.ok ()) calls →
      Held none (.sending chunk.length) calls

namespace Held

variable {slot : Option Bytes} {down : DownPhase} {calls : List Call}

theorem concat_silent (h : Held slot down calls) {x : Call} (hc : x.chunk? = none)
    (hh : x.handed? = none) : Held slot down (calls ++ [x]) := by
  cases h with
  | reading hp => exact .reading (hp.other hc hh)
  | ending hp => exact .ending (hp.other hc hh)
  | waiting hw => exact .waiting (hw.concat hc hh)
  | given hg => exact .given (hg.concat hc hh)

theorem passed_of_reading (h : Held slot .reading calls) : slot = none ∧ Passed calls := by
  cases h with
  | reading hp => exact ⟨rfl, hp⟩

theorem passed_of_ending (h : Held slot .ending calls) : slot = none ∧ Passed calls := by
  cases h with
  | ending hp => exact ⟨rfl, hp⟩

theorem exists_given {size : Nat} (h : Held none (.sending size) calls) :
    ∃ chunk, Given chunk (.ok ()) calls := by
  cases h with
  | given hg => exact ⟨_, hg⟩

/-- What was read was handed over, but for the chunk in the slot. -/
theorem chunks_eq (h : Held slot down calls) :
    (chunks calls).map .binary = handed calls ++ (slot.map .binary).toList := by
  cases h with
  | reading hp => simp [hp.chunks_eq]
  | ending hp => simp [hp.chunks_eq]
  | waiting hw => simp [hw.chunks_eq]
  | given hg => simp [hg.chunks_eq_of_ok]

end Held

variable {σ : Type}

/-- The invariant of the direction to the client. -/
structure Downstream (r : Relay σ) (calls : List Call) : Prop where
  held : Held r.slot r.down calls ∨
    r.slot = none ∧ (∃ result, r.stage = .ended result) ∧ ∃ chunk e, Given chunk (.error e) calls
  bounded {bs : Bytes} : bs ∈ chunks calls → bs.length ≤ chunkSize
  /-- Nothing was read before what had been read was passed on. -/
  ordered {before after : List Call} {answer : Poll Bytes} :
    calls = before ++ .read answer :: after → Passed before
  /-- The channel was closed behind everything that was read, and by the last call. -/
  closed {before after : List Call} {answer : Except ChannelError Unit} :
    calls = before ++ .close answer :: after →
    after = [] ∧ (chunks before).map .binary = handed before ∧ ∃ result, r.stage = .ended result

theorem ne_ended_of_open {r : Relay σ} (h : r.stage = .open) (result : Except RelayError Closing) :
    r.stage ≠ .ended result := by
  rw [h]
  nofun

theorem ne_ended_of_closing {r : Relay σ} (h : r.stage = .closing)
    (result : Except RelayError Closing) : r.stage ≠ .ended result := by
  rw [h]
  nofun

namespace Downstream

variable {r r' : Relay σ} {calls : List Call}

theorem held_of_active (h : Downstream r calls) (ha : ∀ result, r.stage ≠ .ended result) :
    Held r.slot r.down calls := by
  rcases h.held with hheld | ⟨-, ⟨result, hr⟩, -⟩
  · exact hheld
  · exact absurd hr (ha result)

/-- A step without a call. -/
theorem of_held (h : Downstream r calls) (ha : ∀ result, r.stage ≠ .ended result)
    (hheld : Held r'.slot r'.down calls) : Downstream r' calls := by
  refine ⟨.inl hheld, h.bounded, h.ordered, fun heq => ?_⟩
  obtain ⟨result, hr⟩ := (h.closed heq).2.2
  exact absurd hr (ha result)

/-- A step with a call: what it has to bring along. -/
theorem concat (h : Downstream r calls) (ha : ∀ result, r.stage ≠ .ended result) {x : Call}
    (hheld : Held r'.slot r'.down (calls ++ [x]) ∨
      r'.slot = none ∧ (∃ result, r'.stage = .ended result) ∧
        ∃ chunk e, Given chunk (.error e) (calls ++ [x]))
    (hbounded : ∀ bs, x.chunk? = some bs → bs.length ≤ chunkSize)
    (hread : ∀ answer, x = .read answer → Passed calls)
    (hclose : ∀ answer, x = .close answer →
      (chunks calls).map .binary = handed calls ∧ ∃ result, r'.stage = .ended result) :
    Downstream r' (calls ++ [x]) where
  held := hheld
  bounded {bs} hbs := by
    rw [chunks_append, List.mem_append] at hbs
    rcases hbs with hbs | hbs
    · exact h.bounded hbs
    · exact hbounded bs (by simpa using hbs)
  ordered heq := by
    rcases eq_or_exists_of_concat heq with ⟨rfl, hx⟩ | ⟨after', hc, -⟩
    · exact hread _ hx.symm
    · exact h.ordered hc
  closed heq := by
    rcases eq_or_exists_of_concat heq with ⟨rfl, hx⟩ | ⟨after', hc, -⟩
    · subst hx
      have hafter : _ = _ := List.append_cancel_left heq
      exact ⟨(List.cons.inj hafter).2.symm, hclose _ rfl⟩
    · -- Behind a close the relay has ended and takes no more steps.
      obtain ⟨result, hr⟩ := (h.closed hc).2.2
      exact absurd hr (ha result)

/-- A call of the other direction. -/
theorem concat_silent (h : Downstream r calls) (ha : ∀ result, r.stage ≠ .ended result) {x : Call}
    (hslot : r'.slot = r.slot) (hdown : r'.down = r.down) (hx : x.isDown = false) :
    Downstream r' (calls ++ [x]) := by
  obtain ⟨hc, hh⟩ := Call.silent_of_isDown hx
  refine h.concat ha (.inl ?_) (fun bs hbs => ?_) (fun answer hr => ?_) (fun answer hr => ?_)
  · rw [hslot, hdown]
    exact (h.held_of_active ha).concat_silent hc hh
  · rw [hc] at hbs
    cases hbs
  · subst hr
    cases hx
  · subst hr
    cases hx

theorem deliver (h : Downstream r calls) (ha : ∀ result, r.stage ≠ .ended result) {chunk : Bytes}
    (hslot : r.slot = some chunk) {calls' : List Call} {s : Step σ} (hd : Delivery chunk r calls' s)
    (t : Task) : Downstream (s.relay t) (calls ++ calls') := by
  have hheld := h.held_of_active ha
  rw [hslot] at hheld
  generalize hdown : r.down = down at hheld
  -- There is a chunk in the slot only while it waits.
  cases hheld with
  | waiting hw =>
    cases hd with
    | blocked _ => simpa using h
    | handed =>
      refine h.concat ha (.inl ?_) nofun nofun nofun
      simpa only [Step.relay_next, hdown] using Held.given (hw.send (.ok ()))
    | @refused e =>
      refine h.concat ha (.inr ⟨by simp, ?_, chunk, e, hw.send (.error e)⟩) nofun nofun nofun
      cases t <;> exact ⟨_, rfl⟩

/-- A step of the direction itself. -/
theorem downStep [ByteStream σ] (h : Downstream r calls) (hopen : r.stage = .open)
    {calls' : List Call} {s : Step σ} (hs : DownStep r calls' s) :
    Downstream (s.relay .down) (calls ++ calls') := by
  have ha := ne_ended_of_open hopen
  have hheld := h.held_of_active ha
  cases hs with
  | @got b bs remote hdown hr =>
    rw [hdown] at hheld
    obtain ⟨-, hp⟩ := hheld.passed_of_reading
    refine h.concat ha (.inl (.waiting (hp.read b bs))) (fun _ hbs => ?_) (fun _ _ => hp) nofun
    cases hbs
    cases hr with
    | read hr => exact ByteStream.length_read_le hr
  | finished hdown _ =>
    rw [hdown] at hheld
    obtain ⟨hslot, hp⟩ := hheld.passed_of_reading
    refine h.concat ha (.inl ?_) nofun (fun _ _ => hp) nofun
    simpa only [Step.relay_next, hslot] using Held.ending (hp.other rfl rfl)
  | starved hdown _ | failed hdown _ =>
    have hp := (hdown ▸ hheld).passed_of_reading.2
    refine h.concat ha (.inl ?_) nofun (fun _ _ => hp) nofun
    simpa using hheld.concat_silent rfl rfl
  | delivery _ hchunk hd => exact h.deliver ha hchunk hd .down
  | unsettled _ _ _ => simpa using h
  | settled hdown hnone =>
    rw [hdown, hnone] at hheld
    obtain ⟨chunk, hg⟩ := hheld.exists_given
    refine h.concat ha (.inl ?_) nofun nofun nofun
    simpa only [Step.relay_next, hnone] using Held.reading hg.settle
  | closed hdown | unclosed hdown =>
    have hp := (hdown ▸ hheld).passed_of_ending.2
    refine h.concat ha (.inl ?_) nofun nofun (fun _ _ => ⟨hp.chunks_eq, _, rfl⟩)
    simpa using hheld.concat_silent rfl rfl

theorem closingStep (h : Downstream r calls) (hclosing : r.stage = .closing) {calls' : List Call}
    {s : Step σ} (hs : ClosingStep r calls' s) :
    Downstream (s.relay .closing) (calls ++ calls') := by
  have ha := ne_ended_of_closing hclosing
  cases hs with
  | delivery hchunk hd => exact h.deliver ha hchunk hd .closing
  | closed hnone _ =>
    have hheld := h.held_of_active ha
    -- The slot is empty: what had to wait was delivered by an earlier step.
    have hall : (chunks calls).map .binary = handed calls := by
      rw [hheld.chunks_eq, hnone]
      exact List.append_nil _
    refine h.concat ha (.inl ?_) nofun nofun (fun _ _ => ⟨hall, _, rfl⟩)
    simpa using hheld.concat_silent rfl rfl

theorem upStep [ByteStream σ] (h : Downstream r calls) (hopen : r.stage = .open)
    {calls' : List Call} {s : Step σ} (hs : UpStep r calls' s) :
    Downstream (s.relay .up) (calls ++ calls') := by
  have ha := ne_ended_of_open hopen
  cases hs with
  | idle _ _ => simpa using h
  | wrote _ =>
    rw [List.append_nil]
    exact h.of_held ha (h.held_of_active ha)
  | stalled _ hx => exact h.concat_silent ha (by simp) (by simp) (Call.isDown_of_isStalled hx)
  | failed _ hx => exact h.concat_silent ha (by simp) (by simp) (Call.isDown_of_failure hx)
  | _ => exact h.concat_silent ha (by simp) (by simp) rfl

/-- At most one chunk that was read was not handed over: it is in the slot, or the channel has
refused it and the relay has ended. -/
theorem exists_waiting (h : Downstream r calls) :
    ∃ waiting : Option Bytes,
      (chunks calls).map .binary = handed calls ++ (waiting.map .binary).toList ∧
        (waiting = r.slot ∨
          r.slot = none ∧ (∃ result, r.stage = .ended result) ∧
            ∃ chunk e, waiting = some chunk ∧ .send (.binary chunk) (.error e) ∈ calls) := by
  rcases h.held with hheld | ⟨hslot, hended, chunk, e, hg⟩
  · exact ⟨r.slot, hheld.chunks_eq, .inl rfl⟩
  · refine ⟨some chunk, hg.chunks_eq_of_error, .inr ⟨hslot, hended, chunk, e, rfl, ?_⟩⟩
    obtain ⟨before, since, rfl, -⟩ := hg
    simp

theorem of_mem_handed (h : Downstream r calls) {m : Message} (hm : m ∈ handed calls) :
    ∃ bs, m = .binary bs ∧ bs ≠ [] ∧ bs.length ≤ chunkSize := by
  obtain ⟨waiting, heq, -⟩ := h.exists_waiting
  have hm' : m ∈ (chunks calls).map .binary := by
    rw [heq]
    exact List.mem_append_left _ hm
  obtain ⟨bs, hbs, rfl⟩ := List.mem_map.1 hm'
  exact ⟨bs, rfl, ne_nil_of_mem_chunks hbs, h.bounded hbs⟩

end Downstream

end Relay

namespace Course

open Calls

variable {σ : Type}

theorem downstream_start (channel : Channel) (remote : σ) :
    Relay.Downstream (start channel remote).relay (start channel remote).calls where
  held := .inl (.reading .nil)
  bounded hbs := by cases hbs
  ordered heq := by simp [start] at heq
  closed heq := by simp [start] at heq

variable [ByteStream σ]

theorem downstream_run {c : Course σ} (h : Relay.Downstream c.relay c.calls)
    (moves : List (Move σ)) : Relay.Downstream (c.run moves).relay (c.run moves).calls :=
  run_induction (P := fun c => Relay.Downstream c.relay c.calls) (fun h ho hs => h.upStep ho hs)
    (fun h ho hs => h.downStep ho hs) (fun h hc hs => h.closingStep hc hs)
    (fun _ h => ⟨h.held, h.bounded, h.ordered, h.closed⟩) h moves

/-- When the direction to the client has to wait, it is the remote stream that has nothing to read,
or the channel that does not take or pass on a message. -/
theorem exists_turn_down (c : Course σ) :
    ∃ n, (c.run (List.replicate n (.act .down))).relay = c.relay.turn .down ∧
      ((c.relay.turn .down).stage = .open →
        (c.run (List.replicate n (.act .down))).calls.getLast? = some (.read .pending) ∨
          ((c.relay.turn .down).slot.isSome = true ∧ (c.relay.turn .down).channel.blocked = true) ∨
            ((c.relay.turn .down).slot = none ∧
              (c.relay.turn .down).channel.flushBlocked = true)) := by
  obtain ⟨n, hrelay, hwait⟩ := exists_turn .down c
  refine ⟨n, hrelay, fun hopen => ?_⟩
  obtain ⟨c', hcalls, hstep⟩ := hwait (by rw [hopen]; rfl)
  rw [hcalls]
  have hs := c'.relay.downStep
  rw [hstep] at hs
  generalize c.relay.turn .down = r at hs
  generalize c'.relay.calls .down = calls at hs
  cases hs with
  | starved _ _ => exact .inl List.getLast?_concat
  | unsettled _ hslot hf => exact .inr (.inr ⟨hslot, hf⟩)
  | delivery _ hslot hd =>
    cases hd with
    | blocked hb => exact .inr (.inl ⟨by rw [hslot]; rfl, hb⟩)

/-- A relay that ends well does so with a call to its channel. -/
theorem closesLast_run (channel : Channel) (remote : σ) (moves : List (Move σ)) {closing : Closing}
    (hend : ((start channel remote).run moves).relay.stage = .ended (.ok closing)) :
    ClosesLast ((start channel remote).run moves).calls := by
  let P (c : Course σ) : Prop :=
    ∀ closing, c.relay.stage = .ended (.ok closing) → ClosesLast c.calls
  refine run_induction (P := P) (fun {c calls s} _ hopen hs closing hend => ?_)
    (fun {c calls s} _ hopen hs closing hend => ?_)
    (fun {c calls s} _ hclosing hs closing hend => ?_) (fun _ h => h)
    (fun _ h => by cases h) moves closing hend
  · -- The direction to the remote stream ends a relay by an error only.
    cases hs <;> first | cases hend | cases hopen.symm.trans hend
  · cases hs with
    | closed _ => exact ⟨_, _, rfl, .inl ⟨_, rfl⟩⟩
    | delivery _ _ hd => cases hd <;> first | cases hend | cases hopen.symm.trans hend
    | _ => first | cases hend | cases hopen.symm.trans hend
  · cases hs with
    | closed _ _ => exact ⟨_, _, rfl, .inl ⟨_, rfl⟩⟩
    | delivery _ hd =>
      cases hd with
      | refused => exact ⟨_, _, rfl, .inr ⟨_, _, rfl⟩⟩
      | _ => cases hclosing.symm.trans hend

/-- Whatever the remote stream answers and however the channel stands: the channel is given binary
messages, one for each chunk that is read, in order, except perhaps for the last one, and nothing is
read before the chunk before it was handed over and flushed. The channel is closed behind everything
that was read, and the relay does not rest as long as it can go on. -/
theorem carries_chunks (channel : Channel) (remote : σ) (moves : List (Move σ)) :
    let c := (start channel remote).run moves
    (∀ m ∈ handed c.calls, ∃ bs, m = .binary bs ∧ bs ≠ [] ∧ bs.length ≤ 16384) ∧
      (∃ waiting : Option Bytes,
        (chunks c.calls).map .binary = handed c.calls ++ (waiting.map .binary).toList ∧
          (waiting = c.relay.slot ∨
            c.relay.slot = none ∧ (∃ result, c.relay.stage = .ended result) ∧
              ∃ chunk e, waiting = some chunk ∧ .send (.binary chunk) (.error e) ∈ c.calls)) ∧
      (∀ before answer after, c.calls = before ++ .read answer :: after → Passed before) ∧
      (∀ before answer after, c.calls = before ++ .close answer :: after →
        after = [] ∧ (chunks before).map .binary = handed before) ∧
      (∀ closing, c.relay.stage = .ended (.ok closing) → ClosesLast c.calls) ∧
      c.relay.channel.sent = (handed c.calls).reverse ++ channel.sent ∧
      (∀ unread : σ → Bytes, Feeds unread →
        (∀ w, .change w ∈ moves → ∀ s, unread (w.remote s) = unread s) →
        unread remote = (chunks c.calls).flatten ++ unread c.relay.remote) ∧
      (∃ tasks : List Relay.Task, (c.run (tasks.map .act)).relay = c.relay.poll) ∧
      ∃ n, (c.run (List.replicate n (.act .down))).relay = c.relay.turn .down ∧
        ((c.relay.turn .down).stage = .open →
          (c.run (List.replicate n (.act .down))).calls.getLast? = some (.read .pending) ∨
            ((c.relay.turn .down).slot.isSome = true ∧
                (c.relay.turn .down).channel.blocked = true) ∨
              ((c.relay.turn .down).slot = none ∧
                (c.relay.turn .down).channel.flushBlocked = true)) := by
  intro c
  have h : Relay.Downstream c.relay c.calls :=
    downstream_run (downstream_start channel remote) moves
  refine ⟨fun m => h.of_mem_handed, h.exists_waiting, fun before answer after => h.ordered,
    fun before answer after hc => ?_, fun closing => closesLast_run channel remote moves,
    (channel_run channel remote moves).2.1,
    fun unread hunread hm => unread_run hunread hm channel remote, exists_poll c,
    exists_turn_down c⟩
  exact ⟨(h.closed hc).1, (h.closed hc).2.1⟩

/-- The chunk that waits for the channel while the client goes away is handed over before the channel
is closed, and the one behind it stays unread. -/
theorem carries_chunks_before_close :
    let remote := (Script.idle.feed [1, 2]).feed [3]
    let channel : Channel :=
      { Channel.idle with items := [.message (.close none)], blocked := true }
    let ready : Change Script := ⟨[], false, false, none, none, id⟩
    let c := (start channel remote).run [.act .down, .act .down, .act .up, .act .up, .change ready,
      .act .closing, .act .closing]
    remote.unread = (chunks c.calls).flatten ++ c.relay.remote.unread ∧
      c.relay.remote.unread = [3] ∧
      ∃ before, c.calls = before ++ [.close (.ok ())] ∧ handed before = [.binary [1, 2]] ∧
        (chunks before).map .binary = handed before := by
  intro remote channel ready
  obtain ⟨-, -, -, hclose, -, -, hunread, -⟩ := carries_chunks channel remote [.act .down,
    .act .down, .act .up, .act .up, .change ready, .act .closing, .act .closing]
  refine ⟨hunread Script.unread Script.feeds_unread ?_, rfl, _, rfl, rfl, (hclose _ _ [] rfl).2⟩
  intro w hw s
  have hready : w = ready := by simpa using hw
  rw [hready]
  rfl

end Course

end Switchyard
