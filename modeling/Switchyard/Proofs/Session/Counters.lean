import Switchyard.Proofs.Session.Accounts
import Switchyard.Proofs.Session.Ending
import Switchyard.Tally

/-!
# The counters of the program

Relays that run side by side add to the same two counters, which are words of 64 bits. What a relay
adds is counted late and never too early: a message when the remote stream has flushed it, a chunk
when the channel has passed it on. So the counts stay behind what the remote stream has taken and
the channel was given by the one message and the one chunk that are under way (`Ledger.Balanced`),
and a relay that is not open any more counts nothing (`Course.counts_after`). The counters hold the
sum of the counts of all relays, whatever the order of their steps (`Fleet.Kept`).
-/

namespace Switchyard

namespace Calls

/-- The bytes that the channel was given and did not refuse. -/
def given (calls : List Call) : Bytes :=
  ((handed calls).filterMap Message.binary?).flatten

end Calls

/-! ### What the ledger leaves open -/

namespace Ledger

open Calls

/-- The message that the remote stream has not taken and flushed as a whole. -/
def unwritten (l : Ledger) : Option Bytes :=
  l.writing.map Prod.fst

/-- The bytes that were taken of the message that is being written. -/
inductive Begun : Option (Bytes × Bytes) → Bytes → Prop
  | idle : Begun none []
  | under (begun rest : Bytes) : Begun (some (begun ++ rest, rest)) begun

/-- The ledger agrees with the record. Of the messages that were pulled, and of the chunks that were
given to the channel, all but the last one were carried whole. -/
structure Balanced (l : Ledger) (calls : List Call) : Prop where
  payloads_eq : payloads calls = l.written ++ l.unwritten.toList
  taken_eq : ∃ begun, Begun l.writing begun ∧ taken calls = l.written.flatten ++ begun
  handed_eq : handed calls = (l.sent ++ l.sending.toList).map .binary

/-- A call that may follow: a message is pulled when none is being written, the bytes that are
written are those that are left of it, and a chunk is given when none is to be passed on. -/
inductive Admits (l : Ledger) : Call → Prop
  | pullBinary {bs : Bytes} (h : l.writing = none) : Admits l (.pull (.message (.binary bs)))
  | pull {item : Item} (h : item.payload? = none) : Admits l (.pull item)
  | write {whole bs : Bytes} {n : Nat} (h : l.writing = some (whole, bs)) :
      Admits l (.write bs (.ready (n + 1)))
  | stalled {x : Call} (h : x.isStalled = true) : Admits l x
  | failed {x : Call} {e : StreamError} (h : x.failure? = some e) : Admits l x
  | flush : Admits l (.flush (.ready ()))
  | shutdown : Admits l (.shutdown (.ready ()))
  | read {answer : Poll Bytes} : Admits l (.read answer)
  | send {bs : Bytes} (h : l.sending = none) : Admits l (.send (.binary bs) (.ok ()))
  | refused {m : Message} {e : ChannelError} : Admits l (.send m (.error e))
  | settle : Admits l .settle
  | close {answer : Except ChannelError Unit} : Admits l (.close answer)

variable {l : Ledger} {calls : List Call} {x : Call}

/-- A call that leaves no trace in the ledger and moves nothing. -/
theorem Balanced.silent (h : l.Balanced calls) (hl : l.enter x = l)
    (hp : x.pulled?.bind Item.payload? = none) (ht : x.taken = []) (hh : x.handed? = none) :
    (l.enter x).Balanced (calls ++ [x]) := by
  rw [hl]
  constructor
  · simpa [hp] using h.payloads_eq
  · simpa [ht] using h.taken_eq
  · simpa [hh] using h.handed_eq

/-- A flush carries over the message of which nothing is left. -/
theorem Balanced.flush (h : l.Balanced calls) :
    (l.enter (.flush (.ready ()))).Balanced (calls ++ [.flush (.ready ())]) := by
  obtain ⟨begun, hbegun, htaken⟩ := h.taken_eq
  have hpayloads := h.payloads_eq
  unfold unwritten at hpayloads
  generalize hw : l.writing = writing at hbegun hpayloads
  cases hbegun with
  | idle =>
    apply h.silent _ rfl rfl rfl
    simp [enter, hw]
  | under begun rest =>
    cases rest with
    | nil =>
      rw [enter_flush l hw]
      constructor
      · simpa [unwritten, Call.pulled?] using hpayloads
      · exact ⟨[], .idle, by simp [htaken, Call.taken]⟩
      · simpa [Call.handed?] using h.handed_eq
    | cons b rest =>
      apply h.silent _ rfl rfl rfl
      simp [enter, hw]

theorem Balanced.concat (h : l.Balanced calls) (hx : l.Admits x) :
    (l.enter x).Balanced (calls ++ [x]) := by
  cases hx with
  | @pullBinary bs hw =>
    obtain ⟨begun, hbegun, htaken⟩ := h.taken_eq
    rw [hw] at hbegun
    cases hbegun
    constructor
    · simp [enter, unwritten, h.payloads_eq, hw, Call.pulled?, Item.payload?]
    · exact ⟨[], .under [] bs, by simp [enter, htaken, Call.taken]⟩
    · simpa [enter, Call.handed?] using h.handed_eq
  | @pull item hp =>
    refine h.silent ?_ hp rfl rfl
    cases item with
    | message m => cases m <;> first | rfl | cases hp
    | _ => rfl
  | @write whole bs n hw =>
    obtain ⟨begun, hbegun, htaken⟩ := h.taken_eq
    rw [hw] at hbegun
    cases hbegun with
    | under begun rest =>
      constructor
      · simpa [enter, unwritten, hw, Call.pulled?] using h.payloads_eq
      · refine ⟨begun ++ bs.take (n + 1), ?_, ?_⟩
        · have hsplit : begun ++ bs = begun ++ bs.take (n + 1) ++ bs.drop (n + 1) := by
            rw [List.append_assoc, List.take_append_drop]
          simp only [enter, hw, Option.map_some]
          rw [hsplit]
          exact .under _ _
        · simp [enter, htaken, Call.taken]
      · simpa [enter, Call.handed?] using h.handed_eq
  | stalled hst =>
    apply h.silent (enter_of_isStalled l hst) _ (Call.taken_of_isStalled hst)
      (Call.silent_of_isDown (Call.isDown_of_isStalled hst)).2
    cases x <;> first | rfl | cases hst
  | failed hf =>
    apply h.silent (enter_of_failure l hf) _ (Call.taken_of_failure hf)
      (Call.silent_of_isDown (Call.isDown_of_failure hf)).2
    cases x <;> first | rfl | cases hf
  | flush => exact h.flush
  | @send bs hs =>
    have hhanded := h.handed_eq
    rw [hs] at hhanded
    constructor
    · simpa [enter, unwritten, Call.pulled?] using h.payloads_eq
    · simpa [enter, Call.taken] using h.taken_eq
    · simp [enter, hhanded, Call.handed?]
  | settle =>
    cases hs : l.sending with
    | none =>
      apply h.silent _ rfl rfl rfl
      simp [enter, hs]
    | some bs =>
      have hhanded := h.handed_eq
      rw [hs] at hhanded
      rw [enter_settle l hs]
      constructor
      · simpa [unwritten, Call.pulled?] using h.payloads_eq
      · simpa [Call.taken] using h.taken_eq
      · simpa [Call.handed?] using hhanded
  | shutdown => exact h.silent rfl rfl rfl rfl
  | read => exact h.silent rfl rfl rfl rfl
  | @refused m e =>
    apply h.silent _ rfl rfl rfl
    cases m <;> rfl
  | close => exact h.silent rfl rfl rfl rfl

theorem balanced_empty : empty.Balanced [] :=
  ⟨rfl, ⟨[], .idle, rfl⟩, rfl⟩

/-- The count is behind what was taken, by a part of the one message that is not whole. -/
theorem Balanced.taken_between (h : l.Balanced calls) :
    l.up ≤ (taken calls).length ∧ (taken calls).length ≤ l.up + (l.unwritten.getD []).length := by
  obtain ⟨begun, hbegun, htaken⟩ := h.taken_eq
  rw [htaken, up, List.length_append, unwritten]
  generalize l.writing = writing at hbegun
  cases hbegun <;> simp

/-- The count is behind what the channel was given, by the chunk that it has yet to pass on. -/
theorem Balanced.length_given (h : l.Balanced calls) :
    (given calls).length = l.down + (l.sending.getD []).length := by
  have hbinary (bss : List Bytes) : (bss.map Message.binary).filterMap Message.binary? = bss := by
    rw [List.filterMap_map]
    exact List.filterMap_some
  rw [given, h.handed_eq, hbinary, down]
  cases l.sending <;> simp

end Ledger

namespace Relay

open Calls

variable {σ : Type} {r : Relay σ} {l : Ledger} {calls calls' : List Call} {s : Step σ}

/-! ### What the steps of a relay call -/

theorem Delivery.admits {chunk : Bytes} (h : Delivery chunk r calls s) (hslot : r.slot = some chunk)
    (hd : BookedDown r.slot r.down l.sending) : ∀ x ∈ calls, l.Admits x := by
  intro x hx
  have hnone : l.sending = none := by
    rw [hslot] at hd
    generalize r.down = down at hd
    cases down with
    | reading => cases hd.1
    | ending => cases hd.1
    | sending size =>
      obtain ⟨_, -, ⟨-, h⟩ | ⟨h, -⟩⟩ := hd
      · exact h
      · cases h
  cases h with
  | blocked _ => cases hx
  | handed =>
    rw [List.mem_singleton] at hx
    subst hx
    exact .send hnone
  | refused =>
    rw [List.mem_singleton] at hx
    subst hx
    exact .refused

theorem ClosingStep.admits (h : ClosingStep r calls s)
    (hd : BookedDown r.slot r.down l.sending) : ∀ x ∈ calls, l.Admits x := by
  cases h with
  | delivery hslot hdel => exact hdel.admits hslot hd
  | closed _ _ => simpa using .close

variable [ByteStream σ]

theorem DownStep.admits (h : DownStep r calls s)
    (hd : BookedDown r.slot r.down l.sending) : ∀ x ∈ calls, l.Admits x := by
  cases h with
  | delivery _ hslot hdel => exact hdel.admits hslot hd
  | unsettled _ _ _ => simp
  | settled _ _ => simpa using .settle
  | closed _ | unclosed _ => simpa using .close
  | _ => simpa using .read

theorem UpStep.admits (h : UpStep r calls s) (hw : BookedUp r.up l.writing) :
    ∀ x ∈ calls, l.Admits x := by
  cases h with
  | idle _ _ | wrote _ => simp
  | @pulled item items up hup _ _ =>
    rw [hup] at hw
    cases hp : item.payload? with
    | none => simpa using .pull hp
    | some bs =>
      have hitem : item = .message (.binary bs) := by
        unfold Item.payload? at hp
        split at hp <;> cases hp
        rfl
      rw [hitem]
      simpa using .pullBinary hw
  | faulty _ _ hi =>
    cases eq_failure_of_error hi
    simpa using .pull rfl
  | took hup _ =>
    rw [hup] at hw
    obtain ⟨whole, hw, -⟩ := hw
    simpa using .write hw
  | flushed _ _ => simpa using .flush
  | shut _ _ => simpa using .shutdown
  | stalled _ hst => simpa using .stalled hst
  | failed _ hf => simpa using .failed hf

/-! ### What the steps of a relay count -/

omit [ByteStream σ] in
theorem Delivery.counts_eq {chunk : Bytes} (h : Delivery chunk r calls s) (t : Task) :
    (s.relay t).upCount = r.upCount ∧ (s.relay t).downCount = r.downCount := by
  cases h <;> cases t <;> simp [after]

omit [ByteStream σ] in
theorem ClosingStep.counts_eq (h : ClosingStep r calls s) :
    (s.relay .closing).upCount = r.upCount ∧ (s.relay .closing).downCount = r.downCount := by
  cases h with
  | delivery _ hd => exact hd.counts_eq .closing
  | closed _ _ => exact ⟨rfl, rfl⟩

omit [ByteStream σ] in
/-- Closing the channel carries nothing whole. -/
theorem ClosingStep.totals_eq (h : ClosingStep r calls' s) (calls : List Call) :
    (Ledger.ofCalls (calls ++ calls')).up = (Ledger.ofCalls calls).up ∧
      (Ledger.ofCalls (calls ++ calls')).down = (Ledger.ofCalls calls).down := by
  rcases h.calls_eq with rfl | ⟨x, rfl⟩
  · simp
  · rw [Ledger.ofCalls_concat]
    rcases h.closes x (List.mem_singleton_self x) with ⟨m, answer, rfl⟩ | ⟨answer, rfl⟩
    · exact ⟨Ledger.up_enter _ nofun, Ledger.down_enter _ nofun⟩
    · exact ⟨Ledger.up_enter _ nofun, Ledger.down_enter _ nofun⟩

/-- The bytes that the next step to the remote stream counts. -/
def countsUp (r : Relay σ) : Nat :=
  match r.up with
  | .flushing size => if (ByteStream.flush r.remote).1 = .ready () then size else 0
  | _ => 0

omit [ByteStream σ] in
/-- The bytes that the next step to the client counts. -/
def countsDown (r : Relay σ) : Nat :=
  match r.down, r.slot with
  | .sending size, none => if r.channel.flushBlocked then 0 else size
  | _, _ => 0

/-- What a step of a task adds to the counters of the program. -/
def tell (t : Task) (r : Relay σ) (tally : Tally) : Tally :=
  match t with
  | .up => tally.addUp r.countsUp
  | .down => tally.addDown r.countsDown
  | .closing => tally

/-- A step counts for its relay what it counts for the program. -/
theorem counts_act_up (r : Relay σ) :
    (r.act .up).upCount = r.upCount + .ofNat r.countsUp ∧ (r.act .up).downCount = r.downCount := by
  obtain ⟨channel, remote, slot, up, down, upCount, downCount, stage⟩ := r
  simp only [act, step, stepUp, countsUp]
  cases up with
  | pulling =>
    cases channel.items with
    | nil => simp
    | cons item items => cases hi : afterItem item <;> simp [hi, after]
  | writing rest size =>
    cases rest with
    | nil => simp
    | cons b bs =>
      rcases hw : writeSome (b :: bs) remote with ⟨_ | _ | _, _⟩ <;> simp [hw, after]
  | flushing size => rcases ByteStream.flush remote with ⟨_ | _ | _, _⟩ <;> simp [after]
  | ending => rcases ByteStream.shutdown remote with ⟨_ | _ | _, _⟩ <;> simp [after]

theorem counts_act_down (r : Relay σ) :
    (r.act .down).upCount = r.upCount ∧
      (r.act .down).downCount = r.downCount + .ofNat r.countsDown := by
  obtain ⟨channel, remote, slot, up, down, upCount, downCount, stage⟩ := r
  simp only [act, step, stepDown, countsDown]
  cases down with
  | reading =>
    rcases hr : ByteStream.read chunkSize remote with ⟨bs | _ | _, _⟩
    · cases bs <;> simp
    · simp [after]
    · simp
  | sending size =>
    cases slot with
    | some chunk =>
      obtain ⟨hup, hdown⟩ := (delivery chunk ⟨channel, remote, some chunk, up, .sending size, upCount,
        downCount, stage⟩).counts_eq .down
      exact ⟨hup, hdown.trans (UInt64.add_zero downCount).symm⟩
    | none => cases channel.flushBlocked <;> simp
  | ending => rcases channel.close with ⟨_ | _, _⟩ <;> simp [after]

theorem counts_act_closing (r : Relay σ) :
    (r.act .closing).upCount = r.upCount ∧ (r.act .closing).downCount = r.downCount :=
  r.closingStep.counts_eq

end Relay

/-! ### Behind the end -/

namespace Course

open Calls

variable {σ : Type} [ByteStream σ]

theorem balanced_run (channel : Channel) (remote : σ) (moves : List (Move σ)) :
    let c := (start channel remote).run moves
    (Ledger.ofCalls c.calls).Balanced c.calls := by
  let P (c : Course σ) : Prop :=
    c.relay.Booked (.ofCalls c.calls) ∧ (Ledger.ofCalls c.calls).Balanced c.calls
  have hcalls {c : Course σ} {calls : List Call} (h : P c) (hone : calls = [] ∨ ∃ x, calls = [x])
      (hadmits : ∀ x ∈ calls, (Ledger.ofCalls c.calls).Admits x) :
      (Ledger.ofCalls (c.calls ++ calls)).Balanced (c.calls ++ calls) := by
    rcases hone with rfl | ⟨x, rfl⟩
    · simpa using h.2
    · rw [Ledger.ofCalls_concat]
      exact h.2.concat (hadmits x (by simp))
  have hlive {c : Course σ} {stage : Relay.Stage} (h : P c) (hstage : c.relay.stage = stage)
      (hne : ∀ result, stage ≠ .ended result) :
      Relay.BookedDown c.relay.slot c.relay.down (Ledger.ofCalls c.calls).sending :=
    h.1.sending (hstage ▸ hne)
  have h : P ((start channel remote).run moves) := by
    apply run_induction (P := P)
    · intro c calls s h hopen hs
      exact ⟨h.1.upStep hopen hs, hcalls h hs.calls_eq (hs.admits h.1.writing)⟩
    · intro c calls s h hopen hs
      exact ⟨h.1.downStep hopen hs, hcalls h hs.calls_eq (hs.admits (hlive h hopen nofun))⟩
    · intro c calls s h hclosing hs
      exact ⟨h.1.closingStep hclosing hs,
        hcalls h hs.calls_eq (hs.admits (hlive h hclosing nofun))⟩
    · intro c w h
      exact ⟨⟨h.1.writing, h.1.sending, h.1.upCount, h.1.downCount, h.1.told⟩, h.2⟩
    · exact ⟨.start channel remote, Ledger.balanced_empty⟩
  exact h.2

/-- A relay that is not open any more counts nothing, and carries nothing whole. -/
theorem counts_after {c : Course σ} (h : c.relay.stage ≠ .open) (moves : List (Move σ)) :
    let c' := c.run moves
    (c'.relay.upCount = c.relay.upCount ∧ c'.relay.downCount = c.relay.downCount) ∧
      (Ledger.ofCalls c'.calls).up = (Ledger.ofCalls c.calls).up ∧
      (Ledger.ofCalls c'.calls).down = (Ledger.ofCalls c.calls).down := by
  let P (c' : Course σ) : Prop :=
    c'.relay.stage ≠ .open ∧
      (c'.relay.upCount = c.relay.upCount ∧ c'.relay.downCount = c.relay.downCount) ∧
      (Ledger.ofCalls c'.calls).up = (Ledger.ofCalls c.calls).up ∧
      (Ledger.ofCalls c'.calls).down = (Ledger.ofCalls c.calls).down
  have hrun : P (c.run moves) := by
    apply run_induction (P := P)
    · intro c' calls s hc hopen hs
      exact absurd hopen hc.1
    · intro c' calls s hc hopen hs
      exact absurd hopen hc.1
    · intro c' calls s hc hclosing hs
      obtain ⟨hstage, hcounts, hup, hdown⟩ := hc
      obtain ⟨hupCount, hdownCount⟩ := hs.counts_eq
      obtain ⟨hup', hdown'⟩ := hs.totals_eq c'.calls
      refine ⟨hs.stage_ne hstage, ⟨?_, ?_⟩, hup'.trans hup, hdown'.trans hdown⟩
      · rw [hupCount, hcounts.1]
      · rw [hdownCount, hcounts.2]
    · intro c' w hc
      exact hc
    · exact ⟨h, ⟨rfl, rfl⟩, rfl, rfl⟩
  exact hrun.2

/-- A call that fails is the last one that could have carried something whole, and does not. -/
theorem totals_of_fault {channel : Channel} {remote : σ} {moves : List (Move σ)}
    {before after : List Call} {x : Call} {e : RelayError}
    (h : ((start channel remote).run moves).calls = before ++ x :: after) (hf : x.fault? = some e) :
    let l := Ledger.ofCalls ((start channel remote).run moves).calls
    l.up = (Ledger.ofCalls before).up ∧ l.down = (Ledger.ofCalls before).down := by
  obtain ⟨earlier, t, later, hbefore, hdue, hcall, hrun⟩ := exists_point h
  have hflush : x ≠ .flush (.ready ()) := by
    rintro rfl
    cases hf
  have hsettle : x ≠ .settle := by
    rintro rfl
    cases hf
  -- The step that fails takes the relay out of the stage in which it counts.
  have hstage : (((start channel remote).run earlier).relay.act t).stage ≠ .open := by
    rcases Relay.act_of_fault hcall hf with rfl | hended
    · have hclosing := Relay.stage_of_isDue hdue
      have hnot : ((start channel remote).run earlier).relay.stage ≠ .open := by
        rw [hclosing]
        intro hopen
        cases hopen
      exact (Relay.act_of_stage hnot hdue).2
    · rw [hended]
      intro hopen
      cases hopen
  obtain ⟨-, hup, hdown⟩ := counts_after (c := ⟨before ++ [x], Relay.act t _⟩) hstage later
  rw [← hrun, Ledger.ofCalls_concat] at hup hdown
  exact ⟨hup.trans (Ledger.up_enter _ hflush), hdown.trans (Ledger.down_enter _ hsettle)⟩

end Course

/-! ### Several relays -/

/-- What a move of a relay adds to the counters of the program. -/
def Course.tell {σ : Type} [ByteStream σ] (m : Move σ) (c : Course σ) (tally : Tally) : Tally :=
  match m with
  | .act t => if Relay.isDue t c.relay.stage then c.relay.tell t tally else tally
  | .change _ => tally

/-- Relays that run side by side, and the counters that they share. -/
structure Fleet (σ : Type) where
  courses : List (Course σ)
  tally : Tally

/-- A move counts for its relay what it counts for the program. -/
theorem Course.counts_go {σ : Type} [ByteStream σ] (m : Move σ) (c : Course σ) (tally : Tally) :
    ∃ up down, (c.go m).relay.upCount = c.relay.upCount + up ∧
      (c.go m).relay.downCount = c.relay.downCount + down ∧
      (c.tell m tally).up = tally.up + up ∧ (c.tell m tally).down = tally.down + down := by
  have hidle (c' : Course σ) (tally' : Tally)
      (hc : c'.relay.upCount = c.relay.upCount ∧ c'.relay.downCount = c.relay.downCount)
      (ht : tally' = tally) :
      ∃ up down, c'.relay.upCount = c.relay.upCount + up ∧
        c'.relay.downCount = c.relay.downCount + down ∧
        tally'.up = tally.up + up ∧ tally'.down = tally.down + down :=
    ⟨0, 0, by simp [hc], by simp [hc], by simp [ht], by simp [ht]⟩
  cases m with
  | change w => exact hidle _ _ ⟨rfl, rfl⟩ rfl
  | act t =>
    by_cases hdue : Relay.isDue t c.relay.stage = true
    · rw [go_act hdue, tell, if_pos hdue]
      cases t with
      | up =>
        obtain ⟨hup, hdown⟩ := c.relay.counts_act_up
        exact ⟨_, 0, hup, by simp [hdown], rfl, by simp [Relay.tell, Tally.addUp]⟩
      | down =>
        obtain ⟨hup, hdown⟩ := c.relay.counts_act_down
        exact ⟨0, _, by simp [hup], hdown, by simp [Relay.tell, Tally.addDown], rfl⟩
      | closing => exact hidle _ _ c.relay.counts_act_closing rfl
    · rw [go, tell, if_neg hdue, if_neg hdue]
      exact hidle _ _ ⟨rfl, rfl⟩ rfl

/-- Another relay begins, or one of those that have begun makes a move. -/
inductive FleetMove (σ : Type) where
  | begin (channel : Channel) (remote : σ)
  | go (i : Nat) (m : Move σ)

namespace Fleet

variable {σ : Type}

/-- No relay has begun, and the counters stand as they do. -/
def start (tally : Tally) : Fleet σ := ⟨[], tally⟩

/-- What the relays have counted, all together. -/
def counted (count : Relay σ → UInt64) (f : Fleet σ) : UInt64 :=
  f.courses.foldr (fun c n => count c.relay + n) 0

/-- What the relays have carried whole, all together. -/
def carried (total : Ledger → Nat) (f : Fleet σ) : Nat :=
  f.courses.foldr (fun c n => total (.ofCalls c.calls) + n) 0

theorem counted_eq {f : Fleet σ} {count : Relay σ → UInt64} {total : Ledger → Nat}
    (h : ∀ c ∈ f.courses, count c.relay = .ofNat (total (.ofCalls c.calls))) :
    f.counted count = .ofNat (f.carried total) := by
  obtain ⟨courses, tally⟩ := f
  simp only [counted, carried]
  induction courses with
  | nil => rfl
  | cons c courses ih =>
    obtain ⟨hc, hcourses⟩ := List.forall_mem_cons.1 h
    rw [List.foldr_cons, List.foldr_cons, hc, ih hcourses, ← UInt64.ofNat_add]

variable [ByteStream σ]

def move (m : FleetMove σ) (f : Fleet σ) : Fleet σ :=
  match m with
  | .begin channel remote => { f with courses := f.courses ++ [.start channel remote] }
  | .go i m =>
    match f.courses[i]? with
    | none => f
    | some c => ⟨f.courses.set i (c.go m), c.tell m f.tally⟩

def run (moves : List (FleetMove σ)) (f : Fleet σ) : Fleet σ :=
  moves.foldl (fun f m => f.move m) f

/-- What the counters hold, and where each relay has come from. -/
structure Kept (tally : Tally) (f : Fleet σ) : Prop where
  up_eq : f.tally.up = tally.up + f.counted Relay.upCount
  down_eq : f.tally.down = tally.down + f.counted Relay.downCount
  of_mem (c : Course σ) : c ∈ f.courses →
    ∃ channel remote moves, c = (Course.start channel remote).run moves

omit [ByteStream σ] in
/-- What is counted after one relay has counted more. -/
theorem counted_set (count : Relay σ → UInt64) {f : Fleet σ} {i : Nat} {c c' : Course σ}
    (hi : f.courses[i]? = some c) (tally : Tally) {n : UInt64}
    (hn : count c'.relay = count c.relay + n) :
    counted count ⟨f.courses.set i c', tally⟩ = f.counted count + n := by
  obtain ⟨courses, _⟩ := f
  simp only [counted] at hi ⊢
  induction courses generalizing i with
  | nil => simp at hi
  | cons d ds ih =>
    cases i with
    | zero =>
      rw [List.getElem?_cons_zero, Option.some.injEq] at hi
      rw [List.set_cons_zero, List.foldr_cons, List.foldr_cons, hi, hn, UInt64.add_assoc,
        UInt64.add_comm n, ← UInt64.add_assoc]
    | succ i =>
      rw [List.getElem?_cons_succ] at hi
      rw [List.set_cons_succ, List.foldr_cons, List.foldr_cons, ih hi, UInt64.add_assoc]

theorem Kept.move {tally : Tally} {f : Fleet σ} (h : f.Kept tally) (m : FleetMove σ) :
    (f.move m).Kept tally := by
  cases m with
  | begin channel remote =>
    constructor
    · simpa [Fleet.move, counted, Course.start, Relay.start] using h.up_eq
    · simpa [Fleet.move, counted, Course.start, Relay.start] using h.down_eq
    · intro c hc
      rcases List.mem_append.1 hc with hc | hc
      · exact h.of_mem c hc
      · exact ⟨channel, remote, [], List.mem_singleton.1 hc⟩
  | go i m =>
    cases hi : f.courses[i]? with
    | none => simpa [Fleet.move, hi] using h
    | some c =>
      have hmove : f.move (.go i m) = ⟨f.courses.set i (c.go m), c.tell m f.tally⟩ := by
        simp [Fleet.move, hi]
      obtain ⟨n, k, hup, hdown, hn, hk⟩ := Course.counts_go m c f.tally
      rw [hmove]
      constructor
      · rw [hn, counted_set Relay.upCount hi _ hup, h.up_eq, UInt64.add_assoc]
      · rw [hk, counted_set Relay.downCount hi _ hdown, h.down_eq, UInt64.add_assoc]
      · intro c' hc'
        rcases List.mem_or_eq_of_mem_set hc' with hc' | rfl
        · exact h.of_mem c' hc'
        · obtain ⟨channel, remote, moves, rfl⟩ := h.of_mem c (List.mem_of_getElem? hi)
          exact ⟨channel, remote, moves ++ [m], by rw [Course.run_append]; rfl⟩

theorem kept_run (tally : Tally) (moves : List (FleetMove σ)) :
    ((start tally).run moves).Kept tally := by
  have h : (start (σ := σ) tally).Kept tally := by
    constructor
    · exact (UInt64.add_zero tally.up).symm
    · exact (UInt64.add_zero tally.down).symm
    · intro c hc
      cases hc
  generalize start tally = f at h
  induction moves generalizing f with
  | nil => exact h
  | cons m moves ih => exact ih _ (h.move m)

/-- The counters hold what the relays have carried whole. -/
theorem Kept.booked {tally : Tally} {f : Fleet σ} (h : f.Kept tally) :
    f.tally.up.toNat = (tally.up.toNat + f.carried Ledger.up) % UInt64.size ∧
      f.tally.down.toNat = (tally.down.toNat + f.carried Ledger.down) % UInt64.size := by
  have hbooked : ∀ c ∈ f.courses, c.relay.Booked (.ofCalls c.calls) := by
    intro c hc
    obtain ⟨channel, remote, moves, rfl⟩ := h.of_mem c hc
    exact Course.booked_run (.start channel remote) moves
  have hsum (a : UInt64) (n : Nat) :
      (a + UInt64.ofNat n).toNat = (a.toNat + n) % UInt64.size := by
    rw [UInt64.toNat_add, UInt64.toNat_ofNat', Nat.add_mod_mod]
  constructor
  · rw [h.up_eq, counted_eq fun c hc => (hbooked c hc).upCount, hsum]
  · rw [h.down_eq, counted_eq fun c hc => (hbooked c hc).downCount, hsum]

end Fleet

open Calls

/-- Whatever happens, a relay counts neither too much nor much too late: all messages but the one that
is under way, and all chunks but one. What fails is not counted, and nothing is once the relay is not
open any more. Of relays that run side by side each one has run so, and the counters of the program
hold what they held at the beginning and what all have carried, in words of 64 bits. -/
theorem Fleet.counters_lag {σ : Type} [ByteStream σ] (tally : Tally)
    (fleetMoves : List (FleetMove σ)) (channel : Channel) (remote : σ) (moves : List (Move σ)) :
    let f := (Fleet.start tally).run fleetMoves
    let c := (Course.start channel remote).run moves
    let l := Ledger.ofCalls c.calls
    (payloads c.calls = l.written ++ l.unwritten.toList ∧
        c.relay.upCount = .ofNat l.up ∧ l.up = l.written.flatten.length ∧
        l.up ≤ (taken c.calls).length ∧
        (taken c.calls).length ≤ l.up + (l.unwritten.getD []).length) ∧
      (handed c.calls = (l.sent ++ l.sending.toList).map .binary ∧
        c.relay.downCount = .ofNat l.down ∧ l.down = l.sent.flatten.length ∧
        (given c.calls).length = l.down + (l.sending.getD []).length ∧
        (l.sending.getD []).length ≤ 16384) ∧
      (c.relay.stage ≠ .open → ∀ later : List (Move σ),
        let c' := c.run later
        (c'.relay.upCount = c.relay.upCount ∧ c'.relay.downCount = c.relay.downCount) ∧
          (Ledger.ofCalls c'.calls).up = l.up ∧ (Ledger.ofCalls c'.calls).down = l.down) ∧
      (∀ before x after e, c.calls = before ++ x :: after → x.fault? = some e →
        l.up = (Ledger.ofCalls before).up ∧ l.down = (Ledger.ofCalls before).down) ∧
      (∀ c' ∈ f.courses, ∃ channel remote moves, c' = (Course.start channel remote).run moves) ∧
      f.tally.up.toNat = (tally.up.toNat + f.carried Ledger.up) % UInt64.size ∧
      f.tally.down.toNat = (tally.down.toNat + f.carried Ledger.down) % UInt64.size := by
  intro f c l
  have hbalanced : l.Balanced c.calls := Course.balanced_run channel remote moves
  have hbooked : c.relay.Booked l := Course.booked_run (.start channel remote) moves
  have hkept : f.Kept tally := Fleet.kept_run tally fleetMoves
  have hdownstream : Relay.Downstream c.relay c.calls :=
    Course.downstream_run (Course.downstream_start channel remote) moves
  obtain ⟨hleast, hmost⟩ := hbalanced.taken_between
  refine ⟨⟨hbalanced.payloads_eq, hbooked.upCount, rfl, hleast, hmost⟩,
    ⟨hbalanced.handed_eq, hbooked.downCount, rfl, hbalanced.length_given, ?_⟩,
    fun hstage => Course.counts_after hstage, fun before x after e => Course.totals_of_fault,
    hkept.of_mem, hkept.booked⟩
  cases hs : l.sending with
  | none => simp
  | some chunk =>
    have hmem : Message.binary chunk ∈ handed c.calls := by
      rw [hbalanced.handed_eq, hs]
      simp
    obtain ⟨bs, hbs, -, hle⟩ := hdownstream.of_mem_handed hmem
    cases hbs
    exact hle

end Switchyard
