import Switchyard.Proofs.Stream.Acts
import Switchyard.Stream.Sniff

/-!
# Sniffed streams

A stream is sniffed while its bytes, waits and errors arrive in any order and chunks of any size, and
whatever becomes of what is written to it. Sniffing waits as long as nothing has arrived, and puts the
bytes that it reads in front of the stream. What is done to the stream afterwards takes one step per
act: a read takes its bytes off the front first, then off what arrives, and the other acts pass to
the other direction. By induction a run of acts yields what arrived, from the first byte on.
-/

namespace Switchyard

/-- A stream whose directions do not depend on each other: what is read is laid down in a schedule,
and what is written goes to another stream. -/
structure Duplex (τ : Type) where
  incoming : Schedule
  outgoing : τ

namespace Duplex

open ByteStream StreamAnswer

variable {τ : Type} [ByteStream τ]

def read (n : Nat) (s : Duplex τ) : Poll Bytes × Duplex τ :=
  ((s.incoming.read n).1, { s with incoming := (s.incoming.read n).2 })

/-- Does something to the stream that takes what is written. -/
def pass {α : Type} (f : τ → Poll α × τ) (s : Duplex τ) : Poll α × Duplex τ :=
  ((f s.outgoing).1, { s with outgoing := (f s.outgoing).2 })

instance : ByteStream (Duplex τ) where
  read := read
  write bs := pass (ByteStream.write bs)
  flush := pass ByteStream.flush
  shutdown := pass ByteStream.shutdown
  backlog s := s.incoming.bytes.length
  length_read_le h := Schedule.length_read_le (Prod.ext (Prod.mk.inj h).1 rfl)
  backlog_lt h hne := by
    obtain ⟨h1, rfl⟩ := Prod.mk.inj h
    exact ByteStream.backlog_lt (σ := Schedule) (Prod.ext h1 rfl) hne
  backlog_read_le n s := ByteStream.backlog_read_le n s.incoming
  backlog_write_le _ _ := Nat.le_refl _

theorem act_read (n : Nat) (s : Duplex τ) :
    act (.read n) s = (.read (s.incoming.read n).1, { s with incoming := (s.incoming.read n).2 }) :=
  rfl

theorem act_of_not_isRead {a : StreamAct} (ha : a.isRead = false) (s : Duplex τ) :
    act a s = ((act a s.outgoing).1, { s with outgoing := (act a s.outgoing).2 }) := by
  cases a with
  | read n => cases ha
  | _ => rfl

/-- The bytes and the interruptions that the reads of a stream are still to meet. -/
theorem read_eq (n : Nat) (s : Schedule) :
    s.bytes = (StreamAnswer.read (s.read n).1).bytes ++ (s.read n).2.bytes ∧
      s.interruptions =
        (StreamAnswer.read (s.read n).1).interruption.toList ++ (s.read n).2.interruptions := by
  rcases hr : s.read n with ⟨answer, s'⟩
  cases answer with
  | ready bs => exact Schedule.bytes_of_read hr
  | pending => exact Schedule.interruptions_of_read hr (by simp)
  | failed e => exact Schedule.interruptions_of_read hr (by simp)

theorem unread : Unread fun s : Duplex τ => s.incoming.bytes := by
  intro a s
  cases ha : a.isRead with
  | true =>
    cases a with
    | read n => exact (read_eq n s.incoming).1
    | _ => cases ha
  | false =>
    rw [act_of_not_isRead ha, (silent_of_not_isRead ((isRead_act a s.outgoing).trans ha)).1]
    rfl

end Duplex

/-! ### A sniffed stream -/

namespace PrefixedStream

open ByteStream StreamAnswer

variable {τ : Type} [ByteStream τ]

/-- The bytes that are still to be read from a stream. -/
def bytes (p : PrefixedStream (Duplex τ)) : Bytes :=
  p.front ++ p.inner.incoming.bytes

/-- How much the reads of a stream are still to meet. -/
def left (p : PrefixedStream (Duplex τ)) : Nat :=
  p.bytes.length + p.inner.incoming.interruptions.length

theorem bytes_act (a : StreamAct) (p : PrefixedStream (Duplex τ)) :
    p.bytes = (act a p).1.bytes ++ (act a p).2.bytes :=
  PrefixedStream.unread Duplex.unread a p

/-- Waits and errors are passed on, and none is met twice. -/
theorem interruptions_act (a : StreamAct) (p : PrefixedStream (Duplex τ)) :
    p.inner.incoming.interruptions =
      (act a p).1.interruption.toList ++ (act a p).2.inner.incoming.interruptions := by
  have hact := acting a p
  generalize (act a p).1 = answer, (act a p).2 = p' at hact
  cases hact with
  | front _ => rfl
  | @behind n _ => exact (Duplex.read_eq n p.inner.incoming).2
  | pass ha =>
    rw [Duplex.act_of_not_isRead ha,
      (silent_of_not_isRead ((isRead_act a p.inner.outgoing).trans ha)).2]
    rfl

/-- What an act brings was in front, as long as there was enough. -/
theorem front_act (a : StreamAct) (p : PrefixedStream (Duplex τ)) :
    (act a p).2.front = p.front.drop (act a p).1.bytes.length := by
  have hact := acting a p
  generalize (act a p).1 = answer, (act a p).2 = p' at hact
  cases hact with
  | front _ =>
    rw [StreamAnswer.bytes, List.length_take]
    exact List.drop_eq_drop_min
  | behind hp => rw [hp, List.drop_nil]
  | pass ha =>
    rw [(silent_of_not_isRead ((isRead_act a p.inner).trans ha)).1]
    rfl

/-- A read that has room and brings nothing has met the end of the stream. -/
theorem arrivals_of_read {n : Nat} (hn : 0 < n) {p : PrefixedStream (Duplex τ)}
    (h : (act (.read n) p).1 = .read (.ready [])) :
    p.front = [] ∧ p.inner.incoming.arrivals = [] := by
  have hact := acting (.read n) p
  generalize (act (.read n) p).1 = answer, (act (.read n) p).2 = p' at h hact
  cases hact with
  | front hp =>
    injection h with h
    injection h with h
    rw [List.take_eq_nil_iff] at h
    exact absurd (h.resolve_left (Nat.ne_of_gt hn)) hp
  | behind hp =>
    rw [Duplex.act_read] at h
    injection h with h
    exact ⟨hp, (Schedule.arrivals_of_read hn (Prod.ext h rfl)).1⟩
  | pass ha => cases ha

omit [ByteStream τ] in
theorem left_of_arrivals {p : PrefixedStream (Duplex τ)} (hp : p.front = [])
    (harrivals : p.inner.incoming.arrivals = []) : p.left = 0 := by
  rw [left, bytes, Schedule.bytes, Schedule.interruptions, hp, harrivals]
  rfl

/-- A read that has room takes away from what is left, if there is something left. -/
theorem left_act (a : StreamAct) (p : PrefixedStream (Duplex τ)) :
    (act a p).2.left ≤ p.left - if a.hasRoom then 1 else 0 := by
  have hbytes := congrArg List.length (bytes_act a p)
  have hinterruptions := congrArg List.length (interruptions_act a p)
  rw [List.length_append] at hbytes hinterruptions
  have hleft : p.left = (act a p).1.bytes.length + (act a p).1.interruption.toList.length +
      (act a p).2.left := by
    rw [left, hbytes, hinterruptions, left]
    omega
  split
  · next hroom =>
    obtain ⟨n, rfl⟩ : ∃ n, a = .read n := by
      cases a with
      | read n => exact ⟨n, rfl⟩
      | _ => cases hroom
    -- At the end nothing was left; before it, the answer is a byte or an interruption at least.
    by_cases hend : (act (.read n) p).1 = .read (.ready [])
    · have hn : 0 < n := by simpa [StreamAct.hasRoom] using hroom
      obtain ⟨hp, harrivals⟩ := arrivals_of_read hn hend
      have hzero := left_of_arrivals hp harrivals
      omega
    · have hone := one_le_of_ne_end (isRead_act (.read n) p) hend
      omega
  · omega

/-! ### Runs of acts -/

variable (as : List StreamAct) (p : PrefixedStream (Duplex τ))

theorem bytes_acts : p.bytes = yielded (acts as p).1 ++ (acts as p).2.bytes :=
  (PrefixedStream.unread Duplex.unread).acts as p

theorem interruptions_acts :
    p.inner.incoming.interruptions =
      interruptions (acts as p).1 ++ (acts as p).2.inner.incoming.interruptions := by
  induction as generalizing p with
  | nil => rfl
  | cons a as ih =>
    rw [interruptions_act a p, ih, acts_cons, interruptions_cons, List.append_assoc]

theorem front_acts : (acts as p).2.front = p.front.drop (yielded (acts as p).1).length := by
  induction as generalizing p with
  | nil => rfl
  | cons a as ih =>
    rw [acts_cons, ih, front_act, List.drop_drop, yielded_cons, List.length_append]

theorem left_acts : (acts as p).2.left ≤ p.left - (as.filter StreamAct.hasRoom).length := by
  induction as generalizing p with
  | nil => exact Nat.le_refl _
  | cons a as ih =>
    have hact := left_act a p
    have hrest := ih (act a p).2
    simp only [acts_cons]
    cases hroom : a.hasRoom with
    | true =>
      rw [List.filter_cons_of_pos hroom, List.length_cons]
      rw [if_pos hroom] at hact
      omega
    | false =>
      rw [List.filter_cons_of_neg (by simp [hroom])]
      rw [if_neg (by simp [hroom])] at hact
      omega

/-- Writes, flushes and shutdowns are answered as by the stream that takes what is written, and
leave it as they would without the reads between them. -/
theorem writes_acts :
    (acts as p).1.filter (!·.isRead) = (acts (as.filter (!·.isRead)) p.inner.outgoing).1 ∧
      (acts as p).2.inner.outgoing = (acts (as.filter (!·.isRead)) p.inner.outgoing).2 := by
  induction as generalizing p with
  | nil => exact ⟨rfl, rfl⟩
  | cons a as ih =>
    obtain ⟨hanswers, houtgoing⟩ := ih (act a p).2
    have hread := isRead_act a p
    have hact := acting a p
    rw [acts_cons]
    generalize (act a p).1 = answer, (act a p).2 = p' at *
    cases hact with
    | front _ | behind _ =>
      rw [List.filter_cons_of_neg (by simp [hread, StreamAct.isRead]),
        List.filter_cons_of_neg (by simp [StreamAct.isRead])]
      exact ⟨hanswers, houtgoing⟩
    | pass ha =>
      rw [List.filter_cons_of_pos (by simp [hread, ha]), List.filter_cons_of_pos (by simp [ha]),
        acts_cons]
      rw [Duplex.act_of_not_isRead ha] at hanswers houtgoing ⊢
      exact ⟨congrArg _ hanswers, houtgoing⟩

/-- What a read is answered, and what it leaves to be read, depends on what is to be read only. -/
theorem read_act (n : Nat) {p q : PrefixedStream (Duplex τ)} (hfront : p.front = q.front)
    (hincoming : p.inner.incoming = q.inner.incoming) :
    (act (.read n) p).1 = (act (.read n) q).1 ∧
      (act (.read n) p).2.front = (act (.read n) q).2.front ∧
      (act (.read n) p).2.inner.incoming = (act (.read n) q).2.inner.incoming := by
  obtain ⟨front, incoming, p_out⟩ := p
  obtain ⟨_, _, q_out⟩ := q
  obtain rfl : front = _ := hfront
  obtain rfl : incoming = _ := hincoming
  simp only [act, ByteStream.read, PrefixedStream.read]
  split <;> exact ⟨rfl, rfl, rfl⟩

/-- Whatever is no read leaves what is to be read as it is. -/
theorem incoming_act {a : StreamAct} (ha : a.isRead = false) (p : PrefixedStream (Duplex τ)) :
    (act a p).2.front = p.front ∧ (act a p).2.inner.incoming = p.inner.incoming := by
  cases a with
  | read n => cases ha
  | _ => exact ⟨rfl, rfl⟩

/-- What reads yield does not depend on what is written between them. -/
theorem reads_acts {p q : PrefixedStream (Duplex τ)} (hfront : p.front = q.front)
    (hincoming : p.inner.incoming = q.inner.incoming) :
    (acts as p).1.filter (·.isRead) = (acts (as.filter (·.isRead)) q).1 := by
  induction as generalizing p q with
  | nil => rfl
  | cons a as ih =>
    have hread := isRead_act a p
    simp only [acts_cons]
    cases ha : a.isRead with
    | true =>
      obtain ⟨n, rfl⟩ : ∃ n, a = .read n := by
        cases a with
        | read n => exact ⟨n, rfl⟩
        | _ => cases ha
      obtain ⟨hanswer, hfront', hincoming'⟩ := read_act n hfront hincoming
      rw [List.filter_cons_of_pos (by simp [hread, ha]), List.filter_cons_of_pos ha, acts_cons,
        ih hfront' hincoming', hanswer]
    | false =>
      obtain ⟨hfront', hincoming'⟩ := incoming_act ha p
      rw [List.filter_cons_of_neg (by simp [hread, ha]), List.filter_cons_of_neg (by simp [ha])]
      exact ih (hfront'.trans hfront) (hincoming'.trans hincoming)

/-- A stream replays what is to be read from it: whatever is done to it, in any order, its reads give
the bytes once and in order, and nothing that is written matters to them. -/
structure Replays (p : PrefixedStream (Duplex τ)) (as : List StreamAct) : Prop where
  /-- What has been read and what is still to be read are all bytes. -/
  bytes_eq : p.bytes = yielded (acts as p).1 ++ (acts as p).2.bytes
  /-- The front holds the sniffed bytes that have not been read. -/
  front_eq : (acts as p).2.front = p.front.drop (yielded (acts as p).1).length
  /-- Waits and errors are passed on. -/
  interruptions_eq : p.inner.incoming.interruptions =
    interruptions (acts as p).1 ++ (acts as p).2.inner.incoming.interruptions
  /-- A read with room gives no bytes only at the end, when all of them have been read. -/
  end_only : ∀ n, 0 < n → (act (.read n) (acts as p).2).1 = .read (.ready []) →
    (acts as p).2.inner.incoming.arrivals = [] ∧ yielded (acts as p).1 = p.bytes
  /-- Enough reads give everything. -/
  complete : p.left ≤ (as.filter StreamAct.hasRoom).length → yielded (acts as p).1 = p.bytes
  /-- Writes, flushes and shutdowns reach the stream behind as they are. -/
  writes_eq : (acts as p).1.filter (!·.isRead) =
      (acts (as.filter (!·.isRead)) p.inner.outgoing).1 ∧
    (acts as p).2.inner.outgoing = (acts (as.filter (!·.isRead)) p.inner.outgoing).2
  /-- Reads give what they give without the writes between them. -/
  reads_eq : (acts as p).1.filter (·.isRead) = (acts (as.filter (·.isRead)) p).1

theorem replays : Replays p as where
  bytes_eq := bytes_acts as p
  front_eq := front_acts as p
  interruptions_eq := interruptions_acts as p
  end_only n hn hend := by
    obtain ⟨hfront, harrivals⟩ := arrivals_of_read hn hend
    have hbytes := bytes_acts as p
    rw [bytes.eq_def (acts as p).2, Schedule.bytes, hfront, harrivals] at hbytes
    exact ⟨harrivals, by simpa using hbytes.symm⟩
  complete hleft := by
    have hzero : (acts as p).2.left = 0 := by
      have := left_acts as p
      omega
    have hnil : (acts as p).2.bytes = [] := List.eq_nil_of_length_eq_zero (by
      rw [left] at hzero
      omega)
    have hbytes := bytes_acts as p
    rw [hnil, List.append_nil] at hbytes
    exact hbytes.symm
  writes_eq := writes_acts as p
  reads_eq := reads_acts as rfl rfl

end PrefixedStream

/-! ### Sniffing -/

/-- What sniffing comes to when it is tried at most `k` times, again whenever it has to wait. -/
def Sniffed.after {σ : Type} [ByteStream σ] : Nat → σ → Sniffed σ
  | 0, s => .waiting s
  | k + 1, s =>
    match sniff s with
    | .waiting s => Sniffed.after k s
    | outcome => outcome

namespace Schedule

/-- How often a reader has to wait before anything happens. -/
def waits (s : Schedule) : Nat :=
  (s.arrivals.takeWhile (· = .pending)).length

/-- What happens after the waits in front. -/
def awaited (s : Schedule) : List Arrival :=
  s.arrivals.dropWhile (· = .pending)

end Schedule

namespace Duplex

variable {τ : Type}

/-- What a stream comes to that was sniffed: the first byte gives the route, and all there is to be
read is kept, with the first bytes in front. -/
structure Kept (s : Duplex τ) (route : Route) (p : PrefixedStream (Duplex τ)) : Prop where
  route_eq : s.incoming.bytes.head?.map Route.ofByte = some route
  front_ne : p.front ≠ []
  bytes_eq : p.bytes = s.incoming.bytes
  interruptions_eq :
    p.inner.incoming.interruptions = s.incoming.interruptions.drop s.incoming.waits
  outgoing_eq : p.inner.outgoing = s.outgoing

/-- What sniffing a stream comes to after the waits in front. -/
inductive Outcome (s : Duplex τ) : Sniffed (Duplex τ) → Prop
  /-- It ended before its first byte. -/
  | closed : s.incoming.awaited = [] → Outcome s .closed
  /-- It failed before its first byte. -/
  | failed {e : StreamError} {rest : List Arrival} :
      s.incoming.awaited = .failed e :: rest → Outcome s (.failed e)
  | routed {b : UInt8} {bs : Bytes} {rest : List Arrival} {route : Route}
      {p : PrefixedStream (Duplex τ)} :
      s.incoming.awaited = .chunk b bs :: rest → Kept s route p → Outcome s (.routed route p)

theorem Outcome.closed_iff {s : Duplex τ} {outcome : Sniffed (Duplex τ)} (h : Outcome s outcome) :
    outcome = .closed ↔ s.incoming.awaited = [] := by
  cases h <;> simp [*]

theorem Outcome.failed_iff {s : Duplex τ} {outcome : Sniffed (Duplex τ)} (h : Outcome s outcome)
    (e : StreamError) :
    outcome = .failed e ↔ ∃ rest, s.incoming.awaited = .failed e :: rest := by
  cases h <;> simp [*]

theorem Outcome.routed_iff {s : Duplex τ} {outcome : Sniffed (Duplex τ)} (h : Outcome s outcome) :
    (∃ route p, outcome = .routed route p) ↔
      ∃ b bs rest, s.incoming.awaited = .chunk b bs :: rest := by
  cases h <;> simp [*]

/-- A wait in front does not matter. -/
theorem Outcome.pending {arrivals : List Arrival} {outgoing : τ} {outcome : Sniffed (Duplex τ)}
    (h : Outcome ⟨⟨arrivals⟩, outgoing⟩ outcome) :
    Outcome ⟨⟨.pending :: arrivals⟩, outgoing⟩ outcome := by
  cases h with
  | closed h => exact .closed h
  | failed h => exact .failed h
  | routed h hkept =>
    exact .routed h ⟨hkept.route_eq, hkept.front_ne, hkept.bytes_eq, hkept.interruptions_eq,
      hkept.outgoing_eq⟩

variable [ByteStream τ]

/-- Sniffing a stream from which the reader does not have to wait. -/
theorem outcome_sniff {s : Duplex τ} (h : s.incoming.waits = 0) : Outcome s (sniff s) := by
  obtain ⟨⟨arrivals⟩, outgoing⟩ := s
  cases arrivals with
  | nil => exact .closed rfl
  | cons arrival rest =>
    cases arrival with
    | pending => cases h
    | failed e => exact .failed rfl
    | chunk b bs =>
      have hread := (read_eq sniffSize ⟨.chunk b bs :: rest⟩)
      exact .routed rfl
        { route_eq := rfl
          front_ne := List.cons_ne_nil _ _
          bytes_eq := hread.1.symm
          interruptions_eq := hread.2.symm
          outgoing_eq := rfl }

theorem after_of_ne_waiting {k : Nat} {s : Duplex τ} (h : Outcome s (sniff s)) :
    Sniffed.after (k + 1) s = sniff s := by
  rw [Sniffed.after]
  cases hs : sniff s with
  | waiting s' =>
    rw [hs] at h
    cases h
  | _ => rfl

theorem after_of_le_waits {k : Nat} {s : Duplex τ} (h : k ≤ s.incoming.waits) :
    Sniffed.after k s = .waiting { s with incoming := ⟨s.incoming.arrivals.drop k⟩ } ∧
      Schedule.bytes ⟨s.incoming.arrivals.drop k⟩ = s.incoming.bytes := by
  induction k generalizing s with
  | zero => exact ⟨rfl, rfl⟩
  | succ k ih =>
    obtain ⟨⟨arrivals⟩, outgoing⟩ := s
    match arrivals with
    | [] | .failed _ :: _ | .chunk _ _ :: _ => cases h
    | .pending :: rest => exact ih (s := ⟨⟨rest⟩, outgoing⟩) (Nat.le_of_succ_le_succ h)

theorem outcome_after {k : Nat} {s : Duplex τ} (h : s.incoming.waits < k) :
    Outcome s (Sniffed.after k s) := by
  induction k generalizing s with
  | zero => cases h
  | succ k ih =>
    -- A wait in front uses up one try, and the rest of the tries see the stream behind it.
    by_cases hzero : s.incoming.waits = 0
    · rw [after_of_ne_waiting (outcome_sniff hzero)]
      exact outcome_sniff hzero
    · obtain ⟨⟨arrivals⟩, outgoing⟩ := s
      match arrivals with
      | [] | .failed _ :: _ | .chunk _ _ :: _ => exact absurd rfl hzero
      | .pending :: rest => exact (ih (s := ⟨⟨rest⟩, outgoing⟩) (Nat.lt_of_succ_lt_succ h)).pending

/-- **Sniffing neither loses nor repeats a byte.** It waits while nothing has arrived. Then it tells
whether the stream ended or failed before its first byte, or gives the route of the first byte and
a stream whose reads give all bytes from the first one on, whatever else is done to it. -/
theorem sniffing_replays (k : Nat) (s : Duplex τ) :
    (k ≤ s.incoming.waits →
      Sniffed.after k s = .waiting { s with incoming := ⟨s.incoming.arrivals.drop k⟩ } ∧
        Schedule.bytes ⟨s.incoming.arrivals.drop k⟩ = s.incoming.bytes) ∧
    (s.incoming.waits < k →
      (Sniffed.after k s = .closed ↔ s.incoming.awaited = []) ∧
      (∀ e, Sniffed.after k s = .failed e ↔ ∃ rest, s.incoming.awaited = .failed e :: rest) ∧
      ((∃ route p, Sniffed.after k s = .routed route p) ↔
        ∃ b bs rest, s.incoming.awaited = .chunk b bs :: rest) ∧
      ∀ route p, Sniffed.after k s = .routed route p → Kept s route p ∧ ∀ as, p.Replays as) := by
  refine ⟨after_of_le_waits, fun hk => ?_⟩
  have houtcome := outcome_after hk
  refine ⟨houtcome.closed_iff, houtcome.failed_iff, houtcome.routed_iff, fun route p hrouted => ?_⟩
  rw [hrouted] at houtcome
  cases houtcome with
  | routed _ hkept => exact ⟨hkept, p.replays⟩

end Duplex

end Switchyard
