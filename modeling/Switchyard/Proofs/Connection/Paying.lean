import Switchyard.Proofs.Web.Answering

/-!
# Clients get their answers

A client of the web side that is there, and has sent the heads of some requests, has heard what it is
owed for them when it waits: whatever it has sent in one piece or in many, and however long it waits in
between (`Rehearsal.heard_of_fresh`).
-/

namespace Switchyard

open ClientMove

/-! ### Connections -/

/-- The web side refuses requests that fail to open a channel. -/
theorem Service.refuses (s : Service) : Refuses s.site := by
  intro r hasks hnot
  have hsite : s.site r = WebAnswer.toUpgrade r := if_pos hasks
  rw [hsite, WebAnswer.toUpgrade, Handshake.ofRequest?_of_not_grants hnot]

namespace Connection

variable {s : Service} {c : Connection Wire} {more out : Bytes}

/-- A connection has paid all that is due, or owes the rest and waits for more bytes. -/
def Pays (s : Service) (written more out : Bytes) (c : Connection Wire) : Prop :=
  written ++ out <+: c.phase.stream.written ∨
    ∃ p talk paid later, c.phase = .conversing p talk ∧ out = paid ++ later ∧
      p.inner.written = written ++ paid ∧ p.unheard = [] ∧ WebPoll.Owes s.site more later p talk

theorem grows_carry (channel : OpenChannel (PrefixedStream (PrefixedStream Wire))) :
    channel.stream.inner.inner.inner.written <+: (c.carry s channel).phase.stream.written := by
  obtain ⟨frames, hframes, -⟩ := (OpenChannel.frames_poll s.config.identity s.resolve
    s.config.connectTimeout Wire.records.prefixed.prefixed channel).1
  have hpoll := List.prefix_append channel.stream.inner.inner.inner.written frames
  rw [← hframes] at hpoll
  unfold carry
  generalize channel.poll s.config.identity s.resolve s.config.connectTimeout = result at hpoll ⊢
  cases result <;> exact hpoll

theorem pays_converse {p : PrefixedStream Wire} {talk : Conversation}
    (h : WebPoll.Owes s.site more out p talk) :
    Pays s p.inner.written more out (c.converse s p talk) := by
  have hpays := WebPoll.pays_ofStream s.refuses h.calm h.wanted h.due h.waits
  unfold converse
  generalize WebPoll.ofStream s.site p talk = answer at hpays ⊢
  obtain ⟨result, asked⟩ := answer
  rcases hpays with hpaid | ⟨p', talk', paid, later, hresult, hout, hwritten, hnil, howes⟩
  · refine .inl (hpaid.trans ?_)
    cases result with
    | waiting | ended => exact List.prefix_rfl
    | channel stream inflates =>
      exact grows_carry (c := { c with asked := c.asked ++ asked }) (.start stream inflates)
  · obtain rfl : result = .waiting p' talk' := hresult
    exact .inr ⟨p', talk', paid, later, rfl, hout, hwritten, hnil, howes⟩

/-- With nothing more to come, all is paid. -/
theorem Pays.all {written : Bytes} (h : Pays s written [] out c) :
    written ++ out <+: c.phase.stream.written := by
  rcases h with hpaid | ⟨p, talk, paid, later, -, -, -, hnil, howes⟩
  · exact hpaid
  · have hdue := howes.due
    rw [hnil] at hdue
    exact absurd rfl (hdue.ne_nil_of_waits howes.stage_eq howes.waits)

end Connection

/-! ### Runs -/

namespace ClientMove

/-- The moves of a client that stays and may send more. -/
def stays (moves : List ClientMove) : Prop :=
  ended moves = false ∧ failed moves = false

theorem stays_cons {m : ClientMove} {moves : List ClientMove} (h : stays (m :: moves)) :
    m.ends = false ∧ m.fails = false ∧ stays moves := by
  obtain ⟨hended, hfailed⟩ := h
  simp only [ended, failed, List.any_cons, Bool.or_eq_false_iff] at hended hfailed
  exact ⟨hended.1, hfailed.1, hended.2, hfailed.2⟩

theorem sent_cons {m : ClientMove} (h : m.ends = false) (moves : List ClientMove) :
    sent (m :: moves) = m.bytes ++ sent moves := by
  rw [← List.singleton_append, sent_append, sent_singleton, ended_singleton, h]
  rfl

theorem taken_nil (m : ClientMove) : m.taken [] = [] := by
  cases m with
  | take n => exact List.take_nil
  | _ => rfl

end ClientMove

namespace Rehearsal

variable {r : Rehearsal} {more out : Bytes} {p : PrefixedStream Wire} {talk : Conversation}

/-- The client is there, and something is due for bytes that are on the way or will be sent. -/
structure Owes (r : Rehearsal) (more out : Bytes) (p : PrefixedStream Wire) (talk : Conversation) :
    Prop where
  phase_eq : r.connection.phase = .conversing p talk
  finished_eq : r.finished = false
  owes : WebPoll.Owes r.service.site more out p talk

theorem Owes.written_eq (h : r.Owes more out p talk) : r.wire.written = p.inner.written := by
  rw [wire, h.phase_eq]
  rfl

theorem pays_wait (h : r.Owes more out p talk) (ms : Nat) :
    Connection.Pays r.service r.wire.written more out (r.wait ms).connection ∧
      (r.wait ms).finished = false := by
  have hpoll : r.connection.poll r.service = r.connection.converse r.service p talk := by
    rw [Connection.poll, h.phase_eq]
  have hdecided : (r.connection.poll r.service).phase.isSniffing = false := by
    rw [hpoll]
    exact (Connection.follows_converse p talk).isSniffing_eq
  rw [wait_of_decided ms hdecided, h.written_eq]
  dsimp only
  rw [hpoll]
  exact ⟨Connection.pays_converse h.owes, h.finished_eq⟩

/-- The bytes that a client sends are on the way. -/
theorem owes_move {m : ClientMove} (h : r.Owes (m.bytes ++ more) out p talk)
    (hm : ∀ ms, m ≠ .wait ms) (hends : m.ends = false) (hfails : m.fails = false) :
    ∃ p', (r.move m).Owes more out p' talk := by
  obtain ⟨hphase, hfinished, hcalm, hstage, hdue, hwaits, hwanted⟩ := h
  cases m with
  | send bs =>
    have hopen : r.connection.phase.isClosed = false := by rw [hphase]; rfl
    have hmove : r.move (.send bs) = r.onWire (Wire.send bs) := by
      simp [move, send, hfinished, hopen, Except.toOption]
    rw [hmove]
    refine ⟨{ p with inner := p.inner.send bs }, ?_, hfinished, ?_, hstage, ?_, hwaits, hwanted⟩
    · simp only [onWire, wire, hphase]
      rfl
    · exact ⟨hcalm.fault_eq, hcalm.ended_eq, hcalm.gone_eq⟩
    · rw [← List.append_assoc] at hdue
      have hunheard : PrefixedStream.unheard { p with inner := p.inner.send bs } =
          p.unheard ++ bs := (List.append_assoc _ _ _).symm
      rw [hunheard]
      exact hdue
  | take n =>
    refine ⟨{ p with inner := { p.inner with written := p.inner.written.drop n } }, ?_, hfinished,
      ⟨hcalm.fault_eq, hcalm.ended_eq, hcalm.gone_eq⟩, hstage, hdue, hwaits, hwanted⟩
    simp only [move, onWire, wire, hphase]
    rfl
  | wait ms => exact absurd rfl (hm ms)
  | finish | hangUp => cases hends
  | fail e => cases hfails

/-- A client that waits after its moves has heard all that is due. -/
theorem heard_of_owes {moves : List ClientMove} {bs : Bytes} (hstays : stays moves)
    (hheard : r.connection.Heard r.service (bs ++ r.wire.written))
    (h : r.Owes (sent moves) out p talk) (ms : Nat) :
    r.wire.written ++ out <+: heard (moves ++ [.wait ms]) r := by
  induction moves generalizing r out p talk bs with
  | nil => exact (pays_wait h ms).1.all
  | cons m moves ih =>
    obtain ⟨hends, hfails, hstays'⟩ := stays_cons hstays
    rw [sent_cons hends] at h
    have hmove := heard_move m hheard
    rw [← service_move m r] at hmove
    rcases m.wait_or_not with ⟨ms', rfl⟩ | hm
    · have hrest : heard (.wait ms' :: moves ++ [.wait ms]) r =
          heard (moves ++ [.wait ms]) (r.wait ms') := rfl
      rw [hrest]
      obtain ⟨hpaid | ⟨p', talk', paid, later, hphase, hout, hwritten, -, howes⟩, hfinished⟩ :=
        pays_wait h ms'
      · have hmore : (r.wait ms').wire.written <+: heard (moves ++ [.wait ms]) (r.wait ms') :=
          written_prefix_heard _ hmove
        exact hpaid.trans hmore
      · have hwire : (r.wait ms').wire.written = r.wire.written ++ paid := by
          rw [wire, hphase]
          exact hwritten
        have hall := ih hstays' hmove ⟨hphase, hfinished, service_move (.wait ms') r ▸ howes⟩
        rw [move, hwire, List.append_assoc, ← hout] at hall
        exact hall
    · obtain ⟨p', howes⟩ := owes_move h hm hends hfails
      have hwhole := (List.prefix_append_right_inj (m.taken r.wire.written)).2
        (ih hstays' hmove howes)
      rwa [← List.append_assoc, written_of_move hm] at hwhole

/-- What is still due when some moves begin is heard when they end with a wait. -/
theorem heard_of_pays {moves : List ClientMove} {bs : Bytes} (hstays : stays moves)
    (hheard : r.connection.Heard r.service (bs ++ r.wire.written)) (hfinished : r.finished = false)
    (hlast : moves = [] ∨ ∃ init ms, moves = init ++ [.wait ms])
    (h : Connection.Pays r.service [] (sent moves) out r.connection) : out <+: heard moves r := by
  rcases hlast with rfl | ⟨init, ms, rfl⟩
  · exact h.all
  · obtain ⟨hsent, hended, hfailed, -⟩ := after_wait init ms
    rw [hsent] at h
    rcases h with hpaid | ⟨p, talk, paid, later, hphase, hout, hwritten, -, howes⟩
    · exact hpaid.trans (written_prefix_heard _ hheard)
    · have hstays' : stays init := ⟨hended ▸ hstays.1, hfailed ▸ hstays.2⟩
      have hall := heard_of_owes hstays' hheard ⟨hphase, hfinished, howes⟩ ms
      have hwire : r.wire.written = paid := by
        rw [wire, hphase]
        exact hwritten
      rwa [hwire, ← hout] at hall

/-! ### Before the first byte -/

/-- Nothing was read of a client that stays. -/
structure Fresh (r : Rehearsal) (w : Wire) : Prop where
  connection_eq : r.connection = .start w
  finished_eq : r.finished = false
  fault_eq : w.fault = none
  ended_eq : w.ended = false
  gone_eq : w.gone = false
  written_eq : w.written = []

variable {w : Wire}

/-- The first bytes go to the web side, to which something is due for them and all the others. -/
theorem pays_first (h : r.Fresh w) (hweb : w.sent.head?.map Route.ofByte = some .web)
    (howed : Owed r.service.site (w.sent ++ more) out) (ms : Nat) :
    Connection.Pays r.service [] more out (r.wait ms).connection ∧ (r.wait ms).finished = false := by
  obtain ⟨hconnection, hfinished, hfault, hended, hgone, hwritten⟩ := h
  obtain ⟨sent, ended, fault, gone, written⟩ := w
  dsimp only at hfault hended hgone hwritten hweb howed
  subst hfault hended hgone hwritten
  obtain ⟨b, hb, hroute⟩ := Option.map_eq_some_iff.1 hweb
  obtain ⟨bs, rfl⟩ := List.head?_eq_some_iff.1 hb
  let p : PrefixedStream Wire :=
    ⟨(b :: bs).take sniffSize, ⟨(b :: bs).drop sniffSize, false, none, false, []⟩⟩
  have hpoll : r.connection.poll r.service = r.connection.serve r.service p := by
    have hsniff : sniff (Wire.mk (b :: bs) false none false []) = .routed (.ofByte b) p := rfl
    rw [hconnection]
    show Connection.route r.service _ _ = _
    rw [Connection.route, hsniff, hroute]
  have hdecided : (r.connection.poll r.service).phase.isSniffing = false := by
    rw [hpoll]
    exact (Connection.follows_serve p).isSniffing_eq
  have hunheard : p.unheard = b :: bs := List.take_append_drop sniffSize (b :: bs)
  rw [wait_of_decided ms hdecided]
  refine ⟨?_, hfinished⟩
  dsimp only
  rw [hpoll]
  refine Connection.pays_converse (p := p) ⟨⟨rfl, rfl, rfl⟩, rfl, ?_, rfl, by decide⟩
  refine .head rfl rfl (.of_known rfl) ?_
  rw [hunheard]
  exact howed

theorem fresh_move (h : r.Fresh w) {m : ClientMove} (hm : ∀ ms, m ≠ .wait ms)
    (hends : m.ends = false) (hfails : m.fails = false) :
    ∃ w', (r.move m).Fresh w' ∧ w'.sent = w.sent ++ m.bytes := by
  obtain ⟨hconnection, hfinished, hfault, hended, hgone, hwritten⟩ := h
  cases m with
  | send bs =>
    have hopen : r.connection.phase.isClosed = false := by rw [hconnection]; rfl
    have hmove : r.move (.send bs) = r.onWire (Wire.send bs) := by
      simp [move, send, hfinished, hopen, Except.toOption]
    rw [hmove]
    refine ⟨w.send bs, ⟨?_, hfinished, hfault, hended, hgone, hwritten⟩, rfl⟩
    simp only [onWire, wire, hconnection]
    rfl
  | take n =>
    refine ⟨{ w with written := [] }, ⟨?_, hfinished, hfault, hended, hgone, rfl⟩,
      (List.append_nil _).symm⟩
    have hdrop : w.move (.take n) = { w with written := [] } := by
      simp [Wire.move, hwritten]
    rw [← hdrop]
    simp only [move, onWire, wire, hconnection]
    rfl
  | wait ms => exact absurd rfl (hm ms)
  | finish | hangUp => cases hends
  | fail e => cases hfails

/-- Before the first byte nothing happens in time. -/
theorem fresh_wait (h : r.Fresh w) (hnil : w.sent = []) {ms : Nat}
    (htime : ∀ time ∈ r.service.sniffLimit, r.clock + ms < time) : (r.wait ms).Fresh w := by
  obtain ⟨hconnection, hfinished, hfault, hended, hgone, hwritten⟩ := h
  have hpoll : r.connection.poll r.service = .start w := by
    have hsniff : sniff w = .waiting w := by
      simp [sniff, ByteStream.read, Wire.read, hfault, hnil, hended]
    rw [hconnection]
    show Connection.route r.service _ _ = _
    rw [Connection.route, hsniff]
    rfl
  rw [wait_of_time htime]
  exact ⟨hpoll, hfinished, hfault, hended, hgone, hwritten⟩

/-- With bytes on the wire, the next wait is the one that counts. -/
theorem heard_of_first {moves : List ClientMove} {bs : Bytes} (h : r.Fresh w)
    (hheard : r.connection.Heard r.service (bs ++ r.wire.written)) (ms : Nat)
    (hstays : stays (.wait ms :: moves)) (hsent : w.sent ≠ [])
    (hlast : moves = [] ∨ ∃ init ms', moves = init ++ [.wait ms'])
    (hweb : (w.sent ++ sent (.wait ms :: moves)).head?.map Route.ofByte = some .web)
    (howed : Owed r.service.site (w.sent ++ sent (.wait ms :: moves)) out) :
    out <+: heard (.wait ms :: moves) r := by
  have hmoves : sent (.wait ms :: moves) = sent moves := sent_cons rfl moves
  rw [hmoves] at hweb howed
  have hfirst : w.sent.head?.map Route.ofByte = some .web := by
    obtain ⟨b, sent, hb⟩ := List.exists_cons_of_ne_nil hsent
    rw [hb] at hweb ⊢
    exact hweb
  obtain ⟨hpays, hfinished⟩ := pays_first h hfirst howed ms
  have hmove := heard_move (.wait ms) hheard
  rw [← service_move (.wait ms) r] at hmove hpays
  exact heard_of_pays (r := r.move (.wait ms)) (stays_cons hstays).2.2 hmove hfinished hlast hpays

/-- A client whose first byte comes in time hears all that is due when it waits at last. -/
theorem heard_of_fresh {before after : List ClientMove} {ms : Nat} {bs : Bytes}
    (h : r.Fresh w) (hheard : r.connection.Heard r.service (bs ++ r.wire.written))
    (hstays : stays (before ++ .wait ms :: after)) (hfirst : w.sent ++ sent before ≠ [])
    (hweb : (w.sent ++ sent (before ++ .wait ms :: after)).head?.map Route.ofByte = some .web)
    (htime : ∀ time ∈ r.service.sniffLimit, r.clock + elapsed before < time)
    (hlast : after = [] ∨ ∃ init ms', after = init ++ [.wait ms'])
    (howed : Owed r.service.site (w.sent ++ sent (before ++ .wait ms :: after)) out) :
    out <+: heard (before ++ .wait ms :: after) r := by
  induction before generalizing r w bs with
  | nil =>
    have hsent : w.sent ≠ [] := by simpa [sent] using hfirst
    exact heard_of_first h hheard ms hstays hsent hlast hweb howed
  | cons m before ih =>
    obtain ⟨hends, hfails, hstays'⟩ := stays_cons hstays
    have hmove := heard_move m hheard
    rw [← service_move m r] at hmove
    have hclock : r.clock + elapsed (m :: before) = (r.move m).clock + elapsed before := by
      rw [clock_move, elapsed, Nat.add_assoc]
    rw [hclock, ← service_move m r] at htime
    rcases m.wait_or_not with ⟨ms', rfl⟩ | hm
    · by_cases hsent : w.sent = []
      · -- Nothing has come yet, and the time is not over.
        have hwait : (r.move (.wait ms')).Fresh w := fresh_wait h hsent fun time hmem => by
          have hlt := htime time (service_move (.wait ms') r ▸ hmem)
          rw [clock_move] at hlt
          exact Nat.lt_of_le_of_lt (Nat.le_add_right _ _) hlt
        have hrest : sent (.wait ms' :: before) = sent before := sent_cons rfl before
        have hall : sent (.wait ms' :: (before ++ .wait ms :: after)) =
            sent (before ++ .wait ms :: after) := sent_cons rfl _
        rw [List.cons_append, hall] at hweb howed
        rw [hrest] at hfirst
        exact ih hwait hmove hstays' hfirst hweb htime (service_move (.wait ms') r ▸ howed)
      · refine heard_of_first h hheard ms' hstays hsent (.inr ?_) hweb howed
        rcases hlast with rfl | ⟨init, ms'', rfl⟩
        · exact ⟨before, ms, rfl⟩
        · refine ⟨before ++ .wait ms :: init, ms'', ?_⟩
          rw [List.append_assoc]
          rfl
    · obtain ⟨w', hfresh, hsent⟩ := fresh_move h hm hends hfails
      rw [List.cons_append, sent_cons hends, ← List.append_assoc, ← hsent] at hweb howed
      rw [sent_cons hends, ← List.append_assoc, ← hsent] at hfirst
      have hrest := ih hfresh hmove hstays' hfirst hweb htime (service_move m r ▸ howed)
      have hwire : r.wire.written = [] := by
        rw [wire, h.connection_eq]
        exact h.written_eq
      rw [List.cons_append, heard, hwire, taken_nil, List.nil_append]
      exact hrest

end Rehearsal

end Switchyard
