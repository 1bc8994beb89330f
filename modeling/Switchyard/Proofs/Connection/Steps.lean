import Switchyard.Proofs.Connection.Moves

/-!
# Connections step by step

A program that waits for a first byte decides with the first read that does not have to wait: it closes
the connection or gives it to a side (`Connection.Opening`). Once it has decided it stays with that
(`Connection.Follows`). The moves of a client change its side of the wire; when the client waits, the
program goes on and looks at the time, which matters only until it has decided.
-/

namespace Switchyard

namespace Phase

variable {σ : Type}

def isSniffing : Phase σ → Bool
  | sniffing _ => true
  | _ => false

@[simp] theorem isSniffing_withStream (stream : σ) (p : Phase σ) :
    (p.withStream stream).isSniffing = p.isSniffing := by
  cases p <;> rfl

theorem withStream_stream (p : Phase σ) : p.withStream p.stream = p := by
  cases p <;> rfl

end Phase

namespace Connection

variable {σ : Type}

/-- A connection goes on, with the side that it was given to. -/
structure Follows (c c' : Connection σ) : Prop where
  handed_eq : c'.handed = c.handed
  isSniffing_eq : c'.phase.isSniffing = false

theorem expire_of_decided {c : Connection σ} (h : c.phase.isSniffing = false) : c.expire = c := by
  unfold expire
  split
  · next hc =>
    rw [hc] at h
    cases h
  · rfl
  · rfl
  · rfl
  · rfl

variable [ByteStream σ] {s : Service} {c : Connection σ}

theorem follows_absorb (stream : PrefixedStream σ) (taken : Bytes) :
    c.Follows (c.absorb stream taken) := by
  fun_induction absorb c stream taken with
  | case1 | case2 | case3 => exact ⟨rfl, rfl⟩
  | case4 _ _ _ _ _ _ ih => exact ih

theorem follows_carry (channel : OpenChannel (PrefixedStream (PrefixedStream σ))) :
    c.Follows (c.carry s channel) := by
  unfold carry afterChannel
  split <;> exact ⟨rfl, rfl⟩

theorem follows_converse (stream : PrefixedStream σ) (talk : Conversation) :
    c.Follows (c.converse s stream talk) := by
  unfold converse
  dsimp only
  split
  · exact ⟨rfl, rfl⟩
  · exact ⟨rfl, rfl⟩
  · exact ⟨(follows_carry _).handed_eq, (follows_carry _).isSniffing_eq⟩

theorem follows_serve (stream : PrefixedStream σ) :
    (c.hand .web stream).Follows (c.serve s stream) :=
  follows_converse stream .start

theorem follows_fallBack (stream : PrefixedStream σ) :
    (c.hand .fallback stream).Follows (c.fallBack s stream) := by
  unfold fallBack
  dsimp only
  split
  · exact ⟨rfl, rfl⟩
  · exact ⟨rfl, rfl⟩
  · exact follows_absorb stream []

/-- A connection that was decided is not decided again. -/
theorem follows_poll (h : c.phase.isSniffing = false) : c.Follows (c.poll s) := by
  unfold poll
  split
  · next hc =>
    rw [hc] at h
    cases h
  · exact follows_absorb _ _
  · exact follows_converse _ _
  · exact follows_carry _
  · exact ⟨rfl, h⟩

end Connection

namespace Rehearsal

/-! ### Moves of the client -/

/-- A move that takes no time changes the client's side of the wire only. -/
theorem connection_move {m : ClientMove} (hm : ∀ ms, m ≠ .wait ms) (r : Rehearsal) :
    ∃ w, (r.move m).connection = { r.connection with phase := r.connection.phase.withStream w } ∧
      (r.wire.written = [] → w.written = []) ∧
      (r.connection.phase.isClosed = false → r.finished = r.wire.ended → w = r.wire.move m) := by
  cases m with
  | send bs =>
    simp only [move, send]
    split
    · next hfinished =>
      refine ⟨r.wire, by rw [wire, Phase.withStream_stream], id, fun _ hended => ?_⟩
      rw [Wire.move, if_pos (hended ▸ hfinished)]
    · next hfinished =>
      split
      · next hclosed =>
        refine ⟨r.wire, by rw [wire, Phase.withStream_stream]; rfl, id, fun hopen _ => ?_⟩
        rw [hopen] at hclosed
        cases hclosed.2
      · refine ⟨r.wire.send bs, rfl, id, fun _ hended => ?_⟩
        rw [Wire.move, if_neg (hended ▸ hfinished)]
  | wait ms => exact absurd rfl (hm ms)
  | finish => exact ⟨r.wire.finish, rfl, id, fun _ _ => rfl⟩
  | hangUp => exact ⟨r.wire.hangUp, rfl, id, fun _ _ => rfl⟩
  | fail e => exact ⟨r.wire.move (.fail e), rfl, Wire.written_move _, fun _ _ => rfl⟩
  | take n => exact ⟨r.wire.move (.take n), rfl, Wire.written_move _, fun _ _ => rfl⟩

theorem service_move (m : ClientMove) (r : Rehearsal) : (r.move m).service = r.service := by
  cases m with
  | send bs =>
    simp only [move, send]
    repeat' split
    all_goals rfl
  | _ => rfl

theorem service_run (moves : List ClientMove) (r : Rehearsal) :
    (run moves r).service = r.service := by
  induction moves generalizing r with
  | nil => rfl
  | cons m moves ih => exact (ih (r.move m)).trans (service_move m r)

/-- What the client does is the same whatever the service. -/
theorem move_withService {m : ClientMove} (hm : ∀ ms, m ≠ .wait ms) (s : Service)
    (r : Rehearsal) : move { r with service := s } m = { r.move m with service := s } := by
  obtain ⟨service, connection, clock, finished, gone⟩ := r
  cases m with
  | send bs =>
    simp only [move, send]
    split
    · rfl
    · split <;> rfl
  | wait ms => exact absurd rfl (hm ms)
  | _ => rfl

theorem clock_move (m : ClientMove) (r : Rehearsal) : (r.move m).clock = r.clock + m.time := by
  cases m with
  | send bs =>
    simp only [move, send]
    repeat' split
    all_goals rfl
  | _ => rfl

theorem finished_move (m : ClientMove) (r : Rehearsal) :
    (r.move m).finished = (r.finished || m.ends) := by
  cases m with
  | send bs =>
    simp only [move, send, ClientMove.ends, Bool.or_false]
    repeat' split
    all_goals rfl
  | finish | hangUp => exact (Bool.or_true _).symm
  | _ => exact (Bool.or_false _).symm

/-! ### The program's turn -/

/-- A program that has decided goes on, whatever the time. -/
theorem wait_of_decided {r : Rehearsal} (ms : Nat)
    (h : (r.connection.poll r.service).phase.isSniffing = false) :
    r.wait ms =
      { r with connection := r.connection.poll r.service, clock := r.clock + ms } := by
  simp only [wait, settle, elapse, Connection.expire_of_decided h, ite_self]

theorem expiresBefore_iff (r : Rehearsal) (n : Nat) :
    r.expiresBefore n = true ↔ ∃ time ∈ r.service.sniffLimit, time < n := by
  simp [expiresBefore, Option.any_eq_true]

/-- A program whose time is not over goes on, too. -/
theorem wait_of_time {r : Rehearsal} {ms : Nat}
    (h : ∀ time ∈ r.service.sniffLimit, r.clock + ms < time) :
    r.wait ms =
      { r with connection := r.connection.poll r.service, clock := r.clock + ms } := by
  -- The program looks at the time twice, before and after the wait, and both are too early.
  have hearly : ∀ n ≤ r.clock + ms + 1, r.expiresBefore n = false := fun n hn => by
    rw [Bool.eq_false_iff, Ne, expiresBefore_iff]
    rintro ⟨time, hmem, hlt⟩
    have := h time hmem
    omega
  have hnow := hearly (r.clock + 1) (by omega)
  have hthen := hearly (r.clock + ms) (by omega)
  have hsettle : r.settle = { r with connection := r.connection.poll r.service } := by
    rw [settle, hnow]
    rfl
  have helapse : ∀ c : Connection Wire,
      elapse { r with connection := c } ms =
        { r with connection := c, clock := r.clock + ms } := fun c => by
    have hthen' : expiresBefore { r with connection := c } (r.clock + ms) = false := hthen
    simp only [elapse, hthen', Bool.false_eq_true, if_false]
  rw [wait, hsettle, helapse]

/-- A program that nobody has talked to waits until its time is over. -/
theorem wait_of_silence {r : Rehearsal} {w : Wire} (ms : Nat) (hr : r.connection = .start w)
    (hpoll : (Connection.start w).poll r.service = .start w) :
    (r.wait ms).connection = .start w ∧
        (∀ time ∈ r.service.sniffLimit, r.clock < time ∧ r.clock + ms ≤ time) ∨
      (r.wait ms).connection = .close (.start w) ∧
        ∃ time ∈ r.service.sniffLimit, time ≤ r.clock ∨ time < r.clock + ms := by
  obtain ⟨service, connection, clock, finished, gone⟩ := r
  obtain rfl : connection = .start w := hr
  simp only [wait, settle, elapse, hpoll]
  by_cases hnow : expiresBefore ⟨service, .start w, clock, finished, gone⟩ (clock + 1) = true
  · obtain ⟨time, htime, hlt⟩ := (expiresBefore_iff _ _).1 hnow
    rw [if_pos hnow]
    exact .inr ⟨ite_self _, time, htime, .inl (Nat.le_of_lt_succ hlt)⟩
  · rw [if_neg hnow]
    by_cases hthen : expiresBefore ⟨service, .start w, clock, finished, gone⟩ (clock + ms) = true
    · obtain ⟨time, htime, hlt⟩ := (expiresBefore_iff _ _).1 hthen
      exact .inr ⟨if_pos hthen, time, htime, .inr hlt⟩
    · refine .inl ⟨if_neg hthen, fun time htime => ⟨?_, ?_⟩⟩
      · exact Nat.lt_of_not_le fun hle =>
          hnow ((expiresBefore_iff _ _).2 ⟨time, htime, Nat.lt_succ_of_le hle⟩)
      · exact Nat.le_of_not_lt fun hlt => hthen ((expiresBefore_iff _ _).2 ⟨time, htime, hlt⟩)

end Rehearsal

namespace Connection

/-- The first that a program does with a connection. -/
inductive Opening (w : Wire) : Connection Wire → Prop
  /-- Nothing is there yet. -/
  | silence : w.fault = none → w.sent = [] → w.ended = false → Opening w (.start w)
  | refused {w' : Wire} : w.fault.isSome = true ∨ w.sent = [] ∧ w.ended = true →
      w'.written = w.written → Opening w (.close (.start w'))
  | handed {b : UInt8} {bs : Bytes} {route : Route} {p : PrefixedStream Wire}
      {c : Connection Wire} : w.fault = none → w.sent = b :: bs → Route.ofByte b = route →
      p.front ≠ [] → p.unheard = w.sent → p.inner.ended = w.ended →
      p.inner.written = w.written → c.handed = [(route, p)] → c.phase.isSniffing = false →
      Opening w c

/-- A program that still waits has found nothing. -/
theorem Opening.silent {w : Wire} {c : Connection Wire} (h : Opening w c)
    (hwaiting : c.phase.isSniffing = true) : c = .start w ∧ w.sent = [] := by
  cases h with
  | silence _ hnil _ => exact ⟨rfl, hnil⟩
  | refused => cases hwaiting
  | handed _ _ _ _ _ _ _ _ hdecided => cases hdecided.symm.trans hwaiting

/-- The first bytes are taken off the wire and put in front of it. -/
theorem sniff_of_sent {w : Wire} {b : UInt8} {bs : Bytes} (hfault : w.fault = none)
    (hsent : w.sent = b :: bs) :
    ∃ p, sniff w = .routed (.ofByte b) p ∧ p.front ≠ [] ∧ p.unheard = w.sent ∧
      p.inner.ended = w.ended ∧ p.inner.written = w.written := by
  obtain ⟨sent, ended, fault, gone, written⟩ := w
  obtain rfl : fault = none := hfault
  obtain rfl : sent = b :: bs := hsent
  exact ⟨_, rfl, List.cons_ne_nil b _, List.take_append_drop sniffSize (b :: bs), rfl, rfl⟩

theorem opening (s : Service) (w : Wire) : Opening w ((start w).poll s) := by
  -- An error of the wire comes before its bytes, and its bytes before its end.
  show Opening w ((start w).route s w)
  unfold route
  cases hfault : w.fault with
  | some e =>
    have hsniff : sniff w = .failed e := by simp [sniff, ByteStream.read, Wire.read, hfault]
    rw [hsniff]
    exact .refused (.inl (by rw [hfault]; rfl)) rfl
  | none =>
    cases hsent : w.sent with
    | nil =>
      cases hended : w.ended with
      | true =>
        have hsniff : sniff w = .closed := by
          simp [sniff, ByteStream.read, Wire.read, hfault, hsent, hended]
        rw [hsniff]
        exact .refused (.inr ⟨hsent, hended⟩) rfl
      | false =>
        have hsniff : sniff w = .waiting w := by
          simp [sniff, ByteStream.read, Wire.read, hfault, hsent, hended]
        rw [hsniff]
        exact .silence hfault hsent hended
    | cons b bs =>
      obtain ⟨p, hsniff, hfront, hunheard, hended, hwritten⟩ := sniff_of_sent hfault hsent
      rw [hsniff]
      cases hroute : Route.ofByte b with
      | web =>
        have hfollows := follows_serve (s := s) (c := start w) p
        exact .handed hfault hsent hroute hfront hunheard hended hwritten hfollows.handed_eq
          hfollows.isSniffing_eq
      | fallback =>
        have hfollows := follows_fallBack (s := s) (c := start w) p
        exact .handed hfault hsent hroute hfront hunheard hended hwritten hfollows.handed_eq
          hfollows.isSniffing_eq

end Connection

end Switchyard
