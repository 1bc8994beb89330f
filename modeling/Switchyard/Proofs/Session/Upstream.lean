import Switchyard.Proofs.Session.Course

/-!
# From the client to the remote stream

A relay passes the payloads of binary messages on in order, and one at a time: what the remote
stream has taken is what was pulled before the last binary message, and a part of that one, and
nothing is pulled before it is all taken and flushed. `Delivered` and `Underway` say so about a
record of calls; `Upstream` is the invariant that ties them to the phase of the direction.
-/

namespace Switchyard

namespace Calls

/-- Every binary message that was pulled was taken by the remote stream, all of it before anything
else was pulled, and was flushed. -/
inductive Delivered : List Call → Prop
  | nil : Delivered []
  | other {calls : List Call} {x : Call} : Delivered calls → payloads [x] = [] → x.taken = [] →
      Delivered (calls ++ [x])
  | message {before since : List Call} {bs : Bytes} : Delivered before → pulls since = [] →
      taken since = bs →
      Delivered (before ++ .pull (.message (.binary bs)) :: (since ++ [.flush (.ready ())]))

/-- A binary message was pulled last, of which the remote stream has taken this part. -/
def Underway (bs part : Bytes) (calls : List Call) : Prop :=
  ∃ before since, calls = before ++ .pull (.message (.binary bs)) :: since ∧ Delivered before ∧
    pulls since = [] ∧ taken since = part

variable {calls : List Call} {bs part : Bytes} {x : Call}

theorem Delivered.pull_binary (h : Delivered calls) (bs : Bytes) :
    Underway bs [] (calls ++ [.pull (.message (.binary bs))]) :=
  ⟨calls, [], rfl, h, rfl, rfl⟩

theorem Underway.concat (h : Underway bs part calls) (hx : x.pulled? = none) :
    Underway bs (part ++ x.taken) (calls ++ [x]) := by
  obtain ⟨before, since, rfl, hb, hp, ht⟩ := h
  refine ⟨before, since ++ [x], by simp, hb, ?_, ?_⟩
  · simp [hp, hx]
  · simp [ht]

theorem Underway.flushed (h : Underway bs bs calls) :
    Delivered (calls ++ [.flush (.ready ())]) := by
  obtain ⟨before, since, rfl, hb, hp, ht⟩ := h
  simpa using hb.message hp ht

theorem Delivered.taken_eq (h : Delivered calls) : taken calls = (payloads calls).flatten := by
  induction h with
  | nil => rfl
  | other _ hp ht ih => rw [taken_append, payloads_append, hp, ih]; simp [ht]
  | @message before since bs _ hp ht ih =>
    have hsince : payloads since = [] := payloads_of_pulls hp
    simp [ih, ht, hsince, Call.taken, Call.pulled?, Item.payload?]

theorem Underway.payloads_eq (h : Underway bs part calls) :
    ∃ whole, payloads calls = whole ++ [bs] ∧ taken calls = whole.flatten ++ part := by
  obtain ⟨before, since, rfl, hb, hp, ht⟩ := h
  refine ⟨payloads before, ?_, ?_⟩
  · simp [payloads_of_pulls hp, Call.pulled?, Item.payload?]
  · simp [hb.taken_eq, ht, Call.taken]

end Calls

namespace Relay

open Calls

/-- What has become of the items that were pulled, phase by phase. -/
def Carried : UpPhase → List Call → Prop
  | .pulling, calls => Delivered calls
  | .writing rest size, calls =>
    ∃ part, Underway (part ++ rest) part calls ∧ size = (part ++ rest).length
  | .flushing size, calls => ∃ bs, Underway bs bs calls ∧ size = bs.length
  | .ending, calls => Delivered calls

/-- The invariant of the direction to the remote stream. -/
structure Upstream (up : UpPhase) (calls : List Call) : Prop where
  carried : Carried up calls
  /-- Nothing was pulled before what was pulled earlier had been delivered. -/
  ordered {before : List Call} {item : Item} {after : List Call} :
    calls = before ++ .pull item :: after → Delivered before

theorem carried_pull {item : Item} {up : UpPhase} {calls : List Call} (h : Delivered calls)
    (hi : afterItem item = .ok up) : Carried up (calls ++ [.pull item]) := by
  cases item with
  | failure e => cases hi
  | finish => cases hi; exact h.other rfl rfl
  | message m =>
    cases m with
    | binary bs => cases hi; exact ⟨[], h.pull_binary bs, rfl⟩
    | _ => cases hi; exact h.other rfl rfl

theorem delivered_faulty {item : Item} {e : ChannelError} {calls : List Call} (h : Delivered calls)
    (hi : afterItem item = .error e) : Delivered (calls ++ [.pull item]) := by
  cases item with
  | failure e => exact h.other rfl rfl
  | finish => cases hi
  | message m => cases m <;> cases hi

namespace Upstream

variable {up : UpPhase} {calls : List Call} {x : Call}

theorem ordered_concat (h : Upstream up calls) (hx : x.pulled? = none) {before after : List Call}
    {item : Item} (heq : calls ++ [x] = before ++ .pull item :: after) : Delivered before := by
  rcases eq_or_exists_of_concat heq with ⟨-, rfl⟩ | ⟨after', hc, -⟩
  · cases hx
  · exact h.ordered hc

theorem concat_silent (h : Upstream up calls) (hx : x.pulled? = none) (ht : x.taken = []) :
    Upstream up (calls ++ [x]) := by
  refine ⟨?_, h.ordered_concat hx⟩
  have hc := h.carried
  have hp : payloads [x] = [] := payloads_of_pulls (by simp [hx])
  have hu {bs part : Bytes} (hu : Underway bs part calls) : Underway bs part (calls ++ [x]) := by
    simpa only [ht, List.append_nil] using hu.concat hx
  cases up with
  | pulling => exact hc.other hp ht
  | ending => exact hc.other hp ht
  | writing rest size => exact hc.imp fun _ h => ⟨hu h.1, h.2⟩
  | flushing size => exact hc.imp fun _ h => ⟨hu h.1, h.2⟩

theorem append_silent (h : Upstream up calls) {calls' : List Call}
    (hs : ∀ x ∈ calls', x.pulled? = none ∧ x.taken = []) : Upstream up (calls ++ calls') := by
  induction calls' generalizing calls with
  | nil => rwa [List.append_nil]
  | cons x xs ih =>
    obtain ⟨hx, ht⟩ := hs x List.mem_cons_self
    rw [List.append_cons]
    exact ih (h.concat_silent hx ht) fun y hy => hs y (List.mem_cons_of_mem _ hy)

theorem ordered_pull (h : Upstream up calls) (hd : Delivered calls) {before after : List Call}
    {item item' : Item} (heq : calls ++ [.pull item'] = before ++ .pull item :: after) :
    Delivered before := by
  rcases eq_or_exists_of_concat heq with ⟨rfl, -⟩ | ⟨after', hc, -⟩
  · exact hd
  · exact h.ordered hc

/-- A step of the direction itself. -/
theorem upStep {σ : Type} [ByteStream σ] {r : Relay σ} {calls' : List Call} {s : Step σ}
    (h : Upstream r.up calls) (hs : UpStep r calls' s) :
    Upstream (s.relay .up).up (calls ++ calls') := by
  have hc := h.carried
  cases hs with
  | idle hup _ => simpa using h
  | pulled hup _ hi =>
    rw [hup] at hc
    exact ⟨carried_pull hc hi, h.ordered_pull hc⟩
  | faulty hup _ hi =>
    rw [hup] at hc
    refine ⟨?_, h.ordered_pull hc⟩
    rw [Step.relay_stop, after_up, hup]
    exact delivered_faulty hc hi
  | wrote hup =>
    rw [hup] at hc
    obtain ⟨part, hu, hsize⟩ := hc
    rw [List.append_nil] at hu hsize
    rw [List.append_nil]
    exact ⟨⟨part, hu, hsize⟩, h.ordered⟩
  | @took b bs size n remote hup _ =>
    rw [hup] at hc
    obtain ⟨part, hu, hsize⟩ := hc
    -- What the write has taken goes over from the rest to the part.
    have hsplit : part ++ b :: bs = part ++ (b :: bs).take (n + 1) ++ (b :: bs).drop (n + 1) := by
      rw [List.append_assoc, List.take_append_drop]
    rw [hsplit] at hu hsize
    exact ⟨⟨_, hu.concat rfl, hsize⟩, h.ordered_concat rfl⟩
  | flushed hup _ =>
    rw [hup] at hc
    obtain ⟨bs, hu, -⟩ := hc
    exact ⟨hu.flushed, h.ordered_concat rfl⟩
  | shut hup _ => simpa using h.concat_silent rfl rfl
  | stalled hx hst => simpa using h.concat_silent hx.silent.1 (Call.taken_of_isStalled hst)
  | failed hx hf => simpa using h.concat_silent hx.silent.1 (Call.taken_of_failure hf)

/-- The remote stream has taken the payloads of all binary messages that were pulled but the last
one, in order, and then a part of the last one. -/
theorem exists_part (h : Upstream up calls) :
    ∃ part, taken calls = (payloads calls).dropLast.flatten ++ part ∧
      part <+: (payloads calls).getLastD [] := by
  have hwhole (hd : Delivered calls) :
      taken calls = (payloads calls).dropLast.flatten ++ (payloads calls).getLastD [] := by
    rw [hd.taken_eq]
    generalize payloads calls = bss
    rcases List.eq_nil_or_concat bss with rfl | ⟨bss, bs, rfl⟩
    · rfl
    · simp
  have hpart {bs part : Bytes} (hu : Underway bs part calls) (hp : part <+: bs) :
      ∃ part, taken calls = (payloads calls).dropLast.flatten ++ part ∧
        part <+: (payloads calls).getLastD [] := by
    obtain ⟨whole, hpayloads, ht⟩ := hu.payloads_eq
    refine ⟨part, ?_, ?_⟩
    · simp [hpayloads, ht]
    · simpa [hpayloads] using hp
  have hc := h.carried
  cases up with
  | pulling => exact ⟨_, hwhole hc, List.prefix_rfl⟩
  | ending => exact ⟨_, hwhole hc, List.prefix_rfl⟩
  | writing rest size =>
    obtain ⟨part, hu, -⟩ := hc
    exact hpart hu (List.prefix_append _ _)
  | flushing size =>
    obtain ⟨bs, hu, -⟩ := hc
    exact hpart hu List.prefix_rfl

/-- As long as the remote stream has not taken all of a message, nothing is pulled behind it. -/
theorem pulls_eq_nil (h : Upstream up calls) {before after : List Call} {bs : Bytes}
    (hc : calls = before ++ .pull (.message (.binary bs)) :: after)
    (hlt : (taken after).length < bs.length) : pulls after = [] := by
  refine Classical.byContradiction fun hne => ?_
  obtain ⟨since, item, rest, rfl⟩ := exists_pull hne
  -- Whatever is pulled behind the message is pulled when all of it has been taken.
  have hbefore := (h.ordered hc).taken_eq
  have hsince : taken (before ++ .pull (.message (.binary bs)) :: since) = _ :=
    (h.ordered (by rw [hc, List.append_assoc, List.cons_append])).taken_eq
  simp only [taken_append, taken_cons, payloads_append, payloads_cons, hbefore,
    List.flatten_append, List.append_cancel_left_eq, Call.taken, Call.pulled?, Option.bind_some,
    Item.payload?, Option.toList_some, List.nil_append, List.flatten_cons, List.flatten_nil,
    List.append_nil] at hsince
  simp only [taken_append, hsince, List.length_append] at hlt
  omega

end Upstream

variable {σ : Type} {r : Relay σ} {calls : List Call} {s : Step σ}

/-- The other tasks neither pull nor write. -/
theorem Delivery.silent {chunk : Bytes} (h : Delivery chunk r calls s) (t : Task) :
    (s.relay t).up = r.up ∧ ∀ x ∈ calls, x.pulled? = none ∧ x.taken = [] := by
  cases h <;> simp [Call.pulled?, Call.taken]

theorem ClosingStep.silent (h : ClosingStep r calls s) :
    (s.relay .closing).up = r.up ∧ ∀ x ∈ calls, x.pulled? = none ∧ x.taken = [] := by
  cases h with
  | delivery _ hd => exact hd.silent .closing
  | closed _ _ => simp [Call.pulled?, Call.taken]

theorem DownStep.silent [ByteStream σ] (h : DownStep r calls s) :
    (s.relay .down).up = r.up ∧ ∀ x ∈ calls, x.pulled? = none ∧ x.taken = [] := by
  cases h with
  | delivery _ _ hd => exact hd.silent .down
  | _ => simp [Call.pulled?, Call.taken]

end Relay

namespace Course

open Calls

variable {σ : Type}

theorem upstream_start (channel : Channel) (remote : σ) :
    Relay.Upstream (start channel remote).relay.up (start channel remote).calls :=
  ⟨.nil, fun heq => by simp [start] at heq⟩

variable [ByteStream σ] {c : Course σ}

theorem upstream_run (h : Relay.Upstream c.relay.up c.calls) (moves : List (Move σ)) :
    Relay.Upstream (c.run moves).relay.up (c.run moves).calls := by
  refine run_induction (P := fun c => Relay.Upstream c.relay.up c.calls)
    (fun h _ hs => h.upStep hs) (fun h _ hs => ?_) (fun h _ hs => ?_) (fun _ h => h) h moves
  · exact hs.silent.1 ▸ h.append_silent hs.silent.2
  · exact hs.silent.1 ▸ h.append_silent hs.silent.2

/-- When the direction to the remote stream has to wait, everything was pulled and delivered, or the
remote stream does not answer. -/
theorem exists_turn_up (h : Relay.Upstream c.relay.up c.calls) :
    ∃ n, (c.run (List.replicate n (.act .up))).relay = c.relay.turn .up ∧
      ((c.relay.turn .up).stage = .open →
        ((c.relay.turn .up).channel.items = [] ∧
            Delivered (c.run (List.replicate n (.act .up))).calls) ∨
          ∃ x, (c.run (List.replicate n (.act .up))).calls.getLast? = some x ∧
            x.isStalled = true) := by
  obtain ⟨n, hrelay, hwait⟩ := exists_turn .up c
  refine ⟨n, hrelay, fun hopen => ?_⟩
  have hcarried := (upstream_run h (List.replicate n (.act .up))).carried
  obtain ⟨c', hcalls, hstep⟩ := hwait (by rw [hopen]; rfl)
  rw [hrelay] at hcarried
  rw [hcalls] at hcarried ⊢
  have hs := c'.relay.upStep
  rw [hstep] at hs
  generalize c.relay.turn .up = r at hs hcarried
  generalize c'.relay.calls .up = calls at hs hcarried
  cases hs with
  | idle hpulling hitems =>
    rw [hpulling] at hcarried
    exact .inl ⟨hitems, hcarried⟩
  | stalled _ hx => exact .inr ⟨_, List.getLast?_concat, hx⟩

/-- Whatever arrives and however the remote stream answers: it has taken the payloads of the binary
messages pulled so far, in order and without a gap, except for what is missing of the last one, and
nothing is pulled before they are all taken and flushed. Items are pulled as they have arrived, and
the relay does not rest as long as it can go on. -/
theorem carries_payloads (channel : Channel) (remote : σ) (moves : List (Move σ)) :
    let c := (start channel remote).run moves
    (∃ part, taken c.calls = (payloads c.calls).dropLast.flatten ++ part ∧
        part <+: (payloads c.calls).getLastD []) ∧
      (∀ before item after, c.calls = before ++ .pull item :: after →
        Delivered before ∧ taken before = (payloads before).flatten) ∧
      (∀ before bs after, c.calls = before ++ .pull (.message (.binary bs)) :: after →
        (taken after).length < bs.length → pulls after = []) ∧
      pulls c.calls ++ c.relay.channel.items = channel.items ++ moves.flatMap Move.arrivals ∧
      c.relay.channel.pulled = channel.pulled + (pulls c.calls).length ∧
      (∀ seen : σ → Bytes, Shows seen →
        (∀ w, .change w ∈ moves → ∀ s, seen (w.remote s) = seen s) →
        seen c.relay.remote = seen remote ++ taken c.calls) ∧
      (∃ tasks : List Relay.Task, (c.run (tasks.map .act)).relay = c.relay.poll) ∧
      ∃ n, (c.run (List.replicate n (.act .up))).relay = c.relay.turn .up ∧
        ((c.relay.turn .up).stage = .open →
          ((c.relay.turn .up).channel.items = [] ∧
              Delivered (c.run (List.replicate n (.act .up))).calls) ∨
            ∃ x, (c.run (List.replicate n (.act .up))).calls.getLast? = some x ∧
              x.isStalled = true) := by
  intro c
  have h : Relay.Upstream c.relay.up c.calls := upstream_run (upstream_start channel remote) moves
  refine ⟨h.exists_part, fun before item after hc => ?_, fun before bs after => h.pulls_eq_nil,
    items_run moves (start channel remote), (channel_run channel remote moves).1,
    fun seen hseen hm => ?_, exists_poll c, exists_turn_up h⟩
  · exact ⟨h.ordered hc, (h.ordered hc).taken_eq⟩
  · exact seen_run hseen hm channel remote

/-- A remote stream that takes two bytes, and later one more, has then the first message of three
bytes, and the second one waits. -/
theorem carries_payloads_in_parts :
    let channel : Channel :=
      { Channel.idle with items := [.message (.binary [1, 2, 3]), .message (.binary [4])] }
    let more : Change Script := ⟨[], false, false, none, none, fun s => { s with credit := some 1 }⟩
    let c := (start channel { Script.idle with credit := some 2 }).run [.act .up, .act .up, .act .up,
      .change more, .act .up, .act .up, .act .up, .act .up, .act .up]
    c.relay.remote.written = taken c.calls ∧ taken c.calls = [1, 2, 3] ∧
      payloads c.calls = [[1, 2, 3], [4]] ∧ c.relay.up = .writing [4] 1 := by
  intro channel more
  obtain ⟨-, -, -, -, -, hseen, -⟩ := carries_payloads channel { Script.idle with credit := some 2 }
    [.act .up, .act .up, .act .up, .change more, .act .up, .act .up, .act .up, .act .up, .act .up]
  have hwritten := hseen Script.written Script.shows_written fun w hw s => by
    have hmore : w = more := by simpa using hw
    rw [hmore]
    rfl
  have hnone : Script.written { Script.idle with credit := some 2 } = [] := rfl
  rw [hnone, List.nil_append] at hwritten
  exact ⟨hwritten, by decide +kernel, by decide +kernel, by decide +kernel⟩

end Course

end Switchyard
