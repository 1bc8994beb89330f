import Switchyard.Proofs.Connection.Steps

/-!
# The way of a connection

A connection is given to one side at most, and that side gets all bytes that the client has sent.
`Standing` says where a connection stands after some moves of its client: nothing has been read, or it
was closed before a first byte, or it was given to the side of its first byte. Every move keeps that,
and so does a run of moves. The limit on the time of a first byte is compared with the run of the same
moves without a limit: both are the same as long as the time is not over, and from the first byte on.
-/

namespace Switchyard

/-- The letters that lead to the web side. -/
theorem Route.ofByte_eq (b : UInt8) :
    Route.ofByte b = if b ∈ Bytes.ofString "GPHDOCT" then .web else .fallback := by
  have hletters : Bytes.ofString "GPHDOCT" = webLetters.map fun c => c.toNat.toUInt8 := by decide
  have hmem : webLetters.any (fun c => c.toNat == b.toNat) = true ↔
      b ∈ webLetters.map fun c => c.toNat.toUInt8 := by
    rw [List.any_eq_true, List.mem_map]
    refine exists_congr fun c => and_congr_right fun hc => ?_
    have hsmall : c.toNat < 256 := by
      simp only [webLetters, List.mem_cons, List.not_mem_nil, or_false] at hc
      rcases hc with rfl | rfl | rfl | rfl | rfl | rfl | rfl <;> decide
    rw [beq_iff_eq, ← UInt8.toNat_inj, Nat.toUInt8_eq, UInt8.toNat_ofNat',
      Nat.mod_eq_of_lt hsmall]
  simp only [Route.ofByte, hmem, hletters]

/-- The service that waits for a first byte as long as it takes. -/
def Service.unlimited (s : Service) : Service :=
  { s with config := { s.config with sniffTimeout := none } }

/-- The limit counts for nothing but the waiting. -/
theorem Connection.poll_unlimited {σ : Type} [ByteStream σ] (s : Service) (c : Connection σ) :
    c.poll s.unlimited = c.poll s := rfl

/-! ### Where a connection stands -/

open ClientMove

/-- The client has not been heard in time: it failed, or no byte came before it ended or the time was
over. -/
def Unheard (limit : Option Nat) (moves : List ClientMove) : Prop :=
  failed moves = true ∨
    sent moves = [] ∧ (ended moves = true ∨ ∃ time ∈ limit, time ≤ elapsed moves)

theorem not_unheard {limit : Option Nat} {before after : List ClientMove}
    (hsent : sent (before ++ after) ≠ []) (hfailed : failed (before ++ after) = false)
    (htime : ∀ time ∈ limit, elapsed (before ++ after) < time) : ¬ Unheard limit before := by
  rw [failed_append, Bool.or_eq_false_iff] at hfailed
  rintro (hfault | ⟨hnil, hend | ⟨time, hmem, hle⟩⟩)
  · rw [hfailed.1] at hfault
    cases hfault
  · rw [sent_append, hnil, hend] at hsent
    exact hsent rfl
  · have hlt := htime time hmem
    rw [elapsed_append] at hlt
    omega

/-- Nothing was done for the client. -/
structure Connection.Ignored (c : Connection Wire) : Prop where
  handed_eq : c.handed = []
  absorbed_eq : c.absorbed = none
  asked_eq : c.asked = []
  visits_eq : c.visits = []
  written_eq : c.phase.stream.written = []

/-- A stream is given to a side after some moves: the first byte has come in time and gives the route,
and every byte is still to be read. -/
structure Untouched (limit : Option Nat) (moves : List ClientMove) (route : Route)
    (p : PrefixedStream Wire) : Prop where
  route_eq : (sent moves).head?.map Route.ofByte = some route
  front_ne : p.front ≠ []
  unheard_eq : p.unheard = sent moves
  ended_eq : p.inner.ended = ended moves
  written_eq : p.inner.written = []
  not_failed : failed moves = false
  in_time : ∀ time ∈ limit, elapsed moves ≤ time

/-- Whatever happens to a stream that was given away, its reads give all bytes that were sent, once and
in order: they do not stop before, and tell the end only behind the last byte. -/
structure PrefixedStream.Delivers (before : List ClientMove) (p : PrefixedStream Wire)
    (hs : List Happening) : Prop where
  sent_eq : StreamAnswer.yielded (p.happen hs).1 ++ (p.happen hs).2.unheard =
    sent (before ++ Happening.moves hs)
  goes_on : ∀ n, 0 < n → (p.happen hs).2.inner.fault = none → (p.happen hs).2.unheard ≠ [] →
    (ByteStream.act (.read n) (p.happen hs).2).1.bytes ≠ []
  end_only : ∀ n, 0 < n → (ByteStream.act (.read n) (p.happen hs).2).1 = .read (.ready []) →
    StreamAnswer.yielded (p.happen hs).1 = sent (before ++ Happening.moves hs) ∧
      (p.happen hs).2.inner.ended = true

theorem Untouched.delivers {limit : Option Nat} {moves : List ClientMove} {route : Route}
    {p : PrefixedStream Wire} (h : Untouched limit moves route p) (hs : List Happening) :
    p.Delivers moves hs := by
  have hsent : StreamAnswer.yielded (p.happen hs).1 ++ (p.happen hs).2.unheard =
      sent (moves ++ Happening.moves hs) := by
    rw [PrefixedStream.unheard_happen, sent_append, h.unheard_eq, h.ended_eq]
  refine ⟨hsent, fun n hn hfault => PrefixedStream.bytes_ne_nil_of_read hn hfault,
    fun n hn hend => ?_⟩
  obtain ⟨hnil, hended⟩ := PrefixedStream.ended_of_read hn hend
  rw [hnil, List.append_nil] at hsent
  exact ⟨hsent, hended⟩

/-- Where a connection stands whose client has made some moves. -/
inductive Standing (limit : Option Nat) (moves : List ClientMove) : Connection Wire → Prop
  /-- Nothing has been read. -/
  | sniffing {w : Wire} : w.sent = sent moves → w.ended = ended moves →
      w.fault.isSome = failed moves → w.written = [] → (∀ time ∈ limit, elapsed moves ≤ time) →
      Standing limit moves (.start w)
  /-- The connection was closed before a first byte. -/
  | refused {before after : List ClientMove} {w : Wire} : moves = before ++ after →
      Unheard limit before → w.written = [] → Standing limit moves (.close (.start w))
  /-- The connection was given to a side. -/
  | handed {before after : List ClientMove} {route : Route} {p : PrefixedStream Wire}
      {c : Connection Wire} : moves = before ++ after → Untouched limit before route p →
      c.handed = [(route, p)] → c.phase.isSniffing = false → Standing limit moves c

/-- A program that does not wait any more has refused the connection or given it to a side. -/
theorem Connection.Opening.standing {limit : Option Nat} {moves : List ClientMove} {w : Wire}
    {c : Connection Wire} (h : Opening w c) (hdecided : c.phase.isSniffing = false)
    (hsent : w.sent = sent moves) (hended : w.ended = ended moves)
    (hfault : w.fault.isSome = failed moves) (hwritten : w.written = [])
    (hlimit : ∀ time ∈ limit, elapsed moves ≤ time) (after : List ClientMove) :
    Standing limit (moves ++ after) c := by
  cases h with
  | silence => cases hdecided
  | refused hlost hwritten' =>
    refine .refused rfl ?_ (hwritten'.trans hwritten)
    rcases hlost with hlost | ⟨hnil, hlast⟩
    · exact .inl (hfault ▸ hlost)
    · exact .inr ⟨hsent ▸ hnil, .inl (hended ▸ hlast)⟩
  | handed hnone hcons hroute hfront hunheard hended' hwritten' hhanded =>
    refine .handed rfl ?_ hhanded hdecided
    exact
      { route_eq := by rw [← hsent, hcons, ← hroute]; rfl
        front_ne := hfront
        unheard_eq := hunheard.trans hsent
        ended_eq := hended'.trans hended
        written_eq := hwritten'.trans hwritten
        not_failed := by rw [← hfault, hnone]; rfl
        in_time := hlimit }

/-! ### Runs -/

namespace Rehearsal

/-- A rehearsal after some moves. -/
structure After (service : Service) (moves : List ClientMove) (r : Rehearsal) : Prop where
  service_eq : r.service = service
  clock_eq : r.clock = elapsed moves
  finished_eq : r.finished = ended moves
  standing : Standing service.sniffLimit moves r.connection

variable {service : Service} {moves : List ClientMove} {r : Rehearsal}

theorem standing_wait (h : After service moves r) (ms : Nat) :
    Standing service.sniffLimit (moves ++ [.wait ms]) (r.wait ms).connection := by
  have hstanding := h.standing
  generalize hc : r.connection = c at hstanding
  cases hstanding with
  | @sniffing w hsent hended hfault hwritten hlimit =>
    cases hdecided : ((Connection.start w).poll r.service).phase.isSniffing with
    | false =>
      rw [wait_of_decided ms (hc ▸ hdecided), hc]
      exact (Connection.opening r.service w).standing hdecided hsent hended hfault hwritten hlimit _
    | true =>
      -- The program has found nothing, so only the time can have changed anything.
      obtain ⟨hpoll, hnil⟩ := (Connection.opening r.service w).silent hdecided
      obtain ⟨hsame, hsameEnd, hsameFault, hlater⟩ := after_wait moves ms
      rcases wait_of_silence ms hc hpoll with ⟨hwait, htime⟩ | ⟨hwait, time, htime, hle⟩
      · rw [hwait]
        refine .sniffing (hsent.trans hsame.symm) (hended.trans hsameEnd.symm)
          (hfault.trans hsameFault.symm) hwritten fun time hmem => ?_
        rw [hlater, ← h.clock_eq]
        exact (htime time (h.service_eq ▸ hmem)).2
      · rw [hwait]
        have hover : time ≤ elapsed (moves ++ [.wait ms]) := by
          rw [hlater, ← h.clock_eq]
          omega
        exact .refused (List.append_nil _).symm
          (.inr ⟨hsame.trans (hsent ▸ hnil), .inr ⟨time, h.service_eq ▸ htime, hover⟩⟩) hwritten
  | @refused before after w hmoves hunheard hwritten =>
    have hpoll : r.connection.poll r.service = .close (.start w) := by rw [hc]; rfl
    rw [wait_of_decided ms (by rw [hpoll]; rfl), hpoll]
    exact .refused (hmoves ▸ List.append_assoc _ _ _) hunheard hwritten
  | handed hmoves huntouched hhanded hdecided =>
    have hfollows := Connection.follows_poll (s := r.service) (hc ▸ hdecided)
    rw [wait_of_decided ms hfollows.isSniffing_eq]
    exact .handed (hmoves ▸ List.append_assoc _ _ _) huntouched
      (hfollows.handed_eq.trans (hc ▸ hhanded)) hfollows.isSniffing_eq

theorem standing_move (h : After service moves r) (m : ClientMove) (hm : ∀ ms, m ≠ .wait ms) :
    Standing service.sniffLimit (moves ++ [m]) (r.move m).connection := by
  obtain ⟨w', hmove, hwritten', hw'⟩ := connection_move hm r
  have hstanding := h.standing
  have hfinished := h.finished_eq
  rw [hmove]
  rw [wire] at hwritten' hw'
  generalize r.connection = c at hstanding hwritten' hw'
  cases hstanding with
  | @sniffing w hsent hended hfault hwritten hlimit =>
    obtain rfl := hw' rfl (hfinished.trans hended.symm)
    have htime : m.time = 0 := by
      cases m with
      | wait ms => exact absurd rfl (hm ms)
      | _ => rfl
    refine .sniffing ?_ ?_ ?_ (hwritten' hwritten) ?_
    · rw [Wire.sent_move, sent_append, sent_singleton, ← hended, ← hsent]
      rfl
    · rw [Wire.ended_move, ended_append, ended_singleton, ← hended]
      rfl
    · rw [Wire.fault_move, failed_append, failed_singleton, ← hfault]
      rfl
    · rw [elapsed_append, elapsed_singleton, htime]
      exact hlimit
  | refused hmoves hunheard hwritten =>
    exact .refused (hmoves ▸ List.append_assoc _ _ _) hunheard (hwritten' hwritten)
  | handed hmoves huntouched hhanded hdecided =>
    exact .handed (hmoves ▸ List.append_assoc _ _ _) huntouched hhanded
      ((Phase.isSniffing_withStream _ _).trans hdecided)

theorem After.move (h : After service moves r) (m : ClientMove) :
    After service (moves ++ [m]) (r.move m) where
  service_eq := (service_move m r).trans h.service_eq
  clock_eq := by simp [clock_move, h.clock_eq]
  finished_eq := by simp [finished_move, h.finished_eq]
  standing := by
    rcases m.wait_or_not with ⟨ms, rfl⟩ | hm
    · exact standing_wait h ms
    · exact standing_move h m hm

theorem After.run {before : List ClientMove} (h : After service before r)
    (moves : List ClientMove) : After service (before ++ moves) (run moves r) := by
  induction moves generalizing before r with
  | nil => rwa [List.append_nil]
  | cons m moves ih => exact List.append_cons before m moves ▸ ih (h.move m)

theorem After.start (service : Service) : After service [] (start service .idle) :=
  ⟨rfl, rfl, rfl, .sniffing rfl rfl rfl rfl fun _ _ => Nat.zero_le _⟩

theorem after_run (service : Service) (moves : List ClientMove) :
    After service moves (run moves (start service .idle)) :=
  (After.start service).run moves

/-- A program to which bytes were sent decides as soon as it goes on. -/
theorem decided_of_sent (h : After service moves r) (hsent : sent moves ≠ []) :
    (r.connection.poll r.service).phase.isSniffing = false := by
  have hstanding := h.standing
  generalize r.connection = c at hstanding ⊢
  cases hstanding with
  | @sniffing w hw =>
    exact Bool.eq_false_iff.2 fun hwaiting =>
      hsent (hw.symm.trans ((Connection.opening r.service w).silent hwaiting).2)
  | refused => rfl
  | handed _ _ _ hdecided => exact (Connection.follows_poll hdecided).isSniffing_eq

/-- Once the program has decided, the connection is not given to anyone else. -/
theorem handed_move (hr : r.connection.phase.isSniffing = false) (m : ClientMove) :
    r.connection.Follows (r.move m).connection := by
  rcases m.wait_or_not with ⟨ms, rfl⟩ | hm
  · have hfollows := Connection.follows_poll (s := r.service) hr
    rw [move, wait_of_decided ms hfollows.isSniffing_eq]
    exact hfollows
  · obtain ⟨w, hmove, -⟩ := connection_move hm r
    rw [hmove]
    exact ⟨rfl, (Phase.isSniffing_withStream _ _).trans hr⟩

theorem handed_run (hr : r.connection.phase.isSniffing = false) (moves : List ClientMove) :
    (run moves r).connection.handed = r.connection.handed := by
  induction moves generalizing r with
  | nil => rfl
  | cons m moves ih =>
    have hmove := handed_move hr m
    exact (ih hmove.isSniffing_eq).trans hmove.handed_eq

/-! ### The outcome of a run -/

/-- Until a connection is given to a side, nothing is done for the client. -/
theorem ignored_or_handed (h : After service moves r) :
    r.connection.Ignored ∨ ∃ before after route p, moves = before ++ after ∧
      r.connection.handed = [(route, p)] ∧ Untouched service.sniffLimit before route p := by
  have hstanding := h.standing
  generalize r.connection = c at hstanding
  cases hstanding with
  | sniffing _ _ _ hwritten => exact .inl ⟨rfl, rfl, rfl, rfl, hwritten⟩
  | refused _ _ hwritten => exact .inl ⟨rfl, rfl, rfl, rfl, hwritten⟩
  | handed hmoves huntouched hhanded _ =>
    exact .inr ⟨_, _, _, _, hmoves, hhanded, huntouched⟩

/-- A connection whose first byte comes in time is given to the side of that byte. -/
theorem handed_of_sent {before after : List ClientMove} {ms : Nat} {b : UInt8} {bs : Bytes}
    (hsent : sent before = b :: bs) (hfailed : failed before = false)
    (htime : ∀ time ∈ service.sniffLimit, elapsed before < time) :
    ∃ p, (run (before ++ .wait ms :: after) (start service .idle)).connection.handed =
      [(.ofByte b, p)] := by
  have hbefore := after_run service before
  have hdecided := decided_of_sent hbefore (by rw [hsent]; exact List.cons_ne_nil b bs)
  rw [run_append, run_cons, handed_run (by rw [move, wait_of_decided ms hdecided]; exact hdecided),
    move, wait_of_decided ms hdecided]
  have hstanding := hbefore.standing
  dsimp only
  generalize (run before (start service .idle)).connection = c at hstanding ⊢
  cases hstanding with
  | @sniffing w hw _ hfault =>
    have hopening := Connection.opening (run before (start service .idle)).service w
    generalize (Connection.start w).poll _ = c' at hopening ⊢
    cases hopening with
    | silence _ hnil => cases hsent.symm.trans (hw.symm.trans hnil)
    | refused hlost =>
      rcases hlost with hlost | ⟨hnil, -⟩
      · cases hfailed.symm.trans (hfault.symm.trans hlost)
      · cases hsent.symm.trans (hw.symm.trans hnil)
    | handed _ hcons hroute _ _ _ _ hhanded _ =>
      cases hcons.symm.trans (hw.trans hsent)
      exact ⟨_, hroute ▸ hhanded⟩
  | refused hmoves hunheard =>
    subst hmoves
    exact absurd hunheard
      (not_unheard (by rw [hsent]; exact List.cons_ne_nil b bs) hfailed htime)
  | @handed first rest route p _ hmoves huntouched hhanded hc =>
    -- It was given away earlier, when the same first byte was there.
    subst hmoves
    obtain ⟨b', hfirst, rfl⟩ := Option.map_eq_some_iff.1 huntouched.route_eq
    have hhead := head?_sent_append hfirst rest
    rw [hsent] at hhead
    cases hhead
    exact ⟨p, (Connection.follows_poll hc).handed_eq.trans hhanded⟩

/-- A connection on which no byte comes before its end, an error or the limit is ignored. -/
theorem ignored_of_lost {lost after : List ClientMove} (hsent : sent lost = [])
    (hlost : ended lost = true ∨ failed lost = true ∨
      ∃ time ∈ service.sniffLimit, time < elapsed lost) (n : Nat) :
    (run ((lost ++ after).take n) (start service .idle)).connection.Ignored := by
  refine (ignored_or_handed (after_run service _)).resolve_right ?_
  rintro ⟨before, rest, route, p, hmoves, -, huntouched⟩
  obtain ⟨b, hb, -⟩ := Option.map_eq_some_iff.1 huntouched.route_eq
  -- A connection that was given away had its first byte before the loss or after it; neither can be.
  have hprefix : before <+: lost ++ after :=
    (List.prefix_append before rest).trans (hmoves ▸ List.take_prefix n _)
  rcases List.prefix_or_prefix_of_prefix hprefix (List.prefix_append lost after) with
    ⟨more, rfl⟩ | ⟨more, rfl⟩
  · rw [sent_of_append hsent] at hb
    cases hb
  · rcases hlost with hend | hfail | ⟨time, hmem, hlt⟩
    · rw [sent_append, hsent, hend] at hb
      cases hb
    · have hnot := huntouched.not_failed
      rw [failed_append, hfail] at hnot
      cases hnot
    · have hle := huntouched.in_time time hmem
      rw [elapsed_append] at hle
      omega

/-! ### The limit -/

/-- The rehearsal of the same service without a limit. -/
def unlimited (r : Rehearsal) : Rehearsal :=
  { r with service := r.service.unlimited }

theorem wait_unlimited {ms : Nat} (h : (r.connection.poll r.service).phase.isSniffing = false ∨
      ∀ time ∈ r.service.sniffLimit, r.clock + ms < time) :
    r.unlimited.wait ms = (r.wait ms).unlimited := by
  have hpoll := Connection.poll_unlimited r.service r.connection
  rcases h with hdecided | htime
  · rw [wait_of_decided ms hdecided, wait_of_decided (r := r.unlimited) ms (hpoll ▸ hdecided)]
    simp only [unlimited, hpoll]
  · rw [wait_of_time htime, wait_of_time (r := r.unlimited) nofun]
    simp only [unlimited, hpoll]

theorem move_unlimited (h : After service moves r) {m : ClientMove}
    (hm : sent moves ≠ [] ∨ ∀ time ∈ service.sniffLimit, elapsed (moves ++ [m]) < time) :
    r.unlimited.move m = (r.move m).unlimited := by
  rcases m.wait_or_not with ⟨ms, rfl⟩ | hwait
  · refine wait_unlimited (hm.imp (decided_of_sent h) fun htime time hmem => ?_)
    rw [h.clock_eq, ← (after_wait moves ms).2.2.2]
    exact htime time (h.service_eq ▸ hmem)
  · have hservice := service_move m r
    rw [unlimited, unlimited, hservice]
    exact move_withService hwait _ r

theorem run_unlimited_of_sent (h : After service moves r) (hsent : sent moves ≠ [])
    (after : List ClientMove) : run after r.unlimited = (run after r).unlimited := by
  induction after generalizing moves r with
  | nil => rfl
  | cons m after ih =>
    rw [run_cons, run_cons, move_unlimited h (.inl hsent)]
    exact ih (h.move m) fun hnil => hsent (sent_of_append hnil)

theorem run_unlimited_of_time (h : After service moves r) {after : List ClientMove}
    (htime : ∀ time ∈ service.sniffLimit, elapsed (moves ++ after) < time) :
    run after r.unlimited = (run after r).unlimited := by
  induction after generalizing moves r with
  | nil => rfl
  | cons m after ih =>
    rw [List.append_cons] at htime
    rw [run_cons, run_cons, move_unlimited h (.inr fun time hmem => ?_)]
    · exact ih (h.move m) htime
    · have hlt := htime time hmem
      rw [elapsed_append] at hlt
      omega

/-- **A connection is given away at most once, with every byte.** Nothing is done for a client whose
connection is given to no side. A connection is given to the side of its first byte, which is there,
with all its bytes still to be read; this happens whenever the first byte comes in time and the client
does not fail, and never when the client ends or fails or the time is over before that. A limit on the
time has no other effect. -/
theorem gives_once (service : Service) (moves : List ClientMove) :
    ((run moves (start service .idle)).connection.Ignored ∨
      ∃ before after route p, moves = before ++ after ∧
        (run moves (start service .idle)).connection.handed = [(route, p)] ∧
        Untouched service.sniffLimit before route p ∧ ∀ hs, p.Delivers before hs) ∧
    (∀ before after ms b bs, moves = before ++ .wait ms :: after → sent before = b :: bs →
      failed before = false → (∀ time ∈ service.sniffLimit, elapsed before < time) →
      ∃ p, (run moves (start service .idle)).connection.handed =
        [(if b ∈ Bytes.ofString "GPHDOCT" then .web else .fallback, p)]) ∧
    (∀ lost after, moves = lost ++ after → sent lost = [] →
      (ended lost = true ∨ failed lost = true ∨
        ∃ time ∈ service.sniffLimit, time < elapsed lost) →
      ∀ n, (run (moves.take n) (start service .idle)).connection.Ignored) ∧
    ∀ before after, moves = before ++ after → sent before ≠ [] →
      (∀ time ∈ service.sniffLimit, elapsed before < time) →
      run moves (start service.unlimited .idle) =
        (run moves (start service .idle)).unlimited := by
  refine ⟨?_, ?_, ?_, ?_⟩
  · refine (ignored_or_handed (after_run service moves)).imp id ?_
    rintro ⟨before, after, route, p, hmoves, hhanded, huntouched⟩
    exact ⟨before, after, route, p, hmoves, hhanded, huntouched, huntouched.delivers⟩
  · rintro before after ms b bs rfl hsent hfailed htime
    rw [← Route.ofByte_eq]
    exact handed_of_sent hsent hfailed htime
  · rintro lost after rfl hsent hlost n
    exact ignored_of_lost hsent hlost n
  · rintro before after rfl hsent htime
    rw [run_append, run_append]
    -- Before the first byte the time is not over; from the first byte on it does not matter.
    have hbefore : run before (start service.unlimited .idle) =
        (run before (start service .idle)).unlimited :=
      run_unlimited_of_time (After.start service) htime
    rw [hbefore, run_unlimited_of_sent (after_run service before) hsent]

end Rehearsal

end Switchyard
