import Mathlib.Data.List.Forall2
import Switchyard.Proofs.Session.Turns

/-!
# The directions of a relay do not disturb each other

What a direction calls, and how far it comes, is settled by its own side of the relay: for the
direction to the client that is what can be read from the remote stream and how the channel takes
messages, for the direction to the remote stream the items that arrive and how the remote stream
takes bytes. So two relays whose worlds agree on one side make the same calls there and get the same
answers, whatever happens on the other side and whichever direction goes first, for as long as both
of them go on (`Course.directions_independent`).
-/

namespace Switchyard

/-! ### Rounds on one side -/

/-- What one side of the world does to it: how the channel takes messages, and what becomes of the
part of the remote stream that is read. -/
structure Change.AgreesDown {σ ρ : Type} (part : σ → ρ) (w w' : Change σ) : Prop where
  blocked : w.blocked = w'.blocked
  flushBlocked : w.flushBlocked = w'.flushBlocked
  sendError : w.sendError = w'.sendError
  closeError : w.closeError = w'.closeError
  remote {s s' : σ} : part s = part s' → part (w.remote s) = part (w'.remote s')

/-- The other one: the items that arrive, and what becomes of the part that is written to. -/
structure Change.AgreesUp {σ ω : Type} (part : σ → ω) (w w' : Change σ) : Prop where
  arrivals : w.arrivals = w'.arrivals
  remote {s s' : σ} : part s = part s' → part (w.remote s) = part (w'.remote s')

namespace Course

variable {σ ρ ω : Type} [ByteStream σ] {c c' : Course σ}

section Rounds

variable {part : σ → ρ} {whole : σ → ω} {b : Round σ}

/-- What a round makes of the side of the direction to the client is what a turn of that direction
makes of it while both are open. -/
theorem downSide_round (hp : Half Call.isDown part)
    (hheld : ∀ chunk, c.relay.slot = some chunk → ∃ size, c.relay.down = .sending size)
    (h : (c.round b).relay.Running) :
    ∃ e : Course σ, e.relay.stage = .open ∧
      e.downSide part = (c.go (.change b.change)).downSide part ∧
      (c.round b).downSide part = (e.turn .down).downSide part := by
  rw [round_eq] at h ⊢
  obtain ⟨hclosing, hblocked⟩ := turn_closing_of_running h
  rw [hclosing] at h ⊢
  have hheld' : ∀ chunk, (c.go (.change b.change)).relay.slot = some chunk →
      ∃ size, (c.go (.change b.change)).relay.down = .sending size := hheld
  generalize c.go (.change b.change) = d at h hblocked hheld' ⊢
  -- A relay that is to close its channel, and goes on, is one with a chunk that is not taken.
  have hstuck {u : Course σ} (hu : u.downSide part = d.downSide part)
      (hb : ∃ chunk, u.relay.slot = some chunk ∧ u.relay.channel.blocked = true) :
      ∃ e : Course σ, e.relay.stage = .open ∧ e.downSide part = d.downSide part ∧
        u.downSide part = (e.turn .down).downSide part := by
    obtain ⟨chunk, hslot, hblocked⟩ := hb
    have hslot' : d.relay.slot = some chunk :=
      (congrArg (fun side => side.2.slot) hu).symm.trans hslot
    have hblocked' : d.relay.channel.blocked = true :=
      (congrArg (fun side => side.2.blocked) hu).symm.trans hblocked
    obtain ⟨size, hdown⟩ := hheld' chunk hslot'
    let e : Course σ := ⟨d.calls, { d.relay with stage := .open }⟩
    have hturn : e.turn .down = e := turn_down_of_blocked hdown hslot' hblocked'
    refine ⟨e, rfl, rfl, ?_⟩
    rw [hturn]
    exact hu
  cases hstage : d.relay.stage with
  | ended result =>
    rw [turn_of_ended hstage, turn_of_ended hstage, turn_of_ended hstage, ite_self] at h
    exact absurd hstage (h result)
  | closing =>
    have hidle (t : Relay.Task) (ht : t ≠ .closing) : d.turn t = d := by
      apply turn_of_not_due
      rw [hstage]
      cases t <;> first | rfl | exact absurd rfl ht
    rw [hidle .down (by decide), hidle .up (by decide), hidle .down (by decide), ite_self]
      at hblocked ⊢
    exact hstuck rfl (hblocked hstage)
  | «open» =>
    split at h
    · next hfirst =>
      rw [if_pos hfirst]
      exact ⟨d, hstage, rfl, downSide_turn_up hp _⟩
    · next hfirst =>
      rw [if_neg hfirst] at hblocked ⊢
      have hup := downSide_turn_up hp d
      cases hnext : (d.turn .up).relay.stage with
      | ended result => exact absurd hnext (running_of_turn h result)
      | «open» => exact ⟨d, hstage, rfl, turn_down_alike hp hup (hnext.trans hstage.symm)⟩
      | closing =>
        have hidle : (d.turn .up).turn .down = d.turn .up := by
          apply turn_of_not_due
          rw [hnext]
          rfl
        rw [hidle] at hblocked ⊢
        exact hstuck hup (hblocked hnext)

theorem upSide_round (hp : Half Call.isUp whole) (h : (c.round b).relay.Running) :
    (c.round b).upSide whole = ((c.go (.change b.change)).turn .up).upSide whole ∧
      (c.round b).relay.stage = ((c.go (.change b.change)).turn .up).relay.stage := by
  rw [round_eq] at h ⊢
  have hclosing := (turn_closing_of_running h).1
  rw [hclosing] at h ⊢
  generalize c.go (.change b.change) = d at h ⊢
  split at h
  · next hfirst =>
    rw [if_pos hfirst]
    exact turn_up_alike hp (upSide_turn_down hp d) (stage_turn (by decide) (running_of_turn h))
  · next hfirst =>
    rw [if_neg hfirst]
    exact ⟨upSide_turn_down hp _, stage_turn (by decide) h⟩

omit [ByteStream σ] in
theorem downSide_change {w w' : Change σ} (hw : w.AgreesDown part w')
    (h : c.downSide part = c'.downSide part) :
    downSide part ⟨c.calls, c.relay.change w⟩ = downSide part ⟨c'.calls, c'.relay.change w'⟩ := by
  have hview : c.relay.downPart part = c'.relay.downPart part := congrArg Prod.snd h
  have hnew : (c.relay.change w).downPart part = (c'.relay.change w').downPart part := by
    simp only [Relay.downPart, Relay.DownPart.mk.injEq] at hview
    obtain ⟨hslot, hdown, hcount, -, -, -, -, hsent, hclosed, hpart⟩ := hview
    simp [Relay.downPart, Relay.change, Change.channel, hslot, hdown, hcount, hsent, hclosed,
      hw.blocked, hw.flushBlocked, hw.sendError, hw.closeError, hw.remote hpart]
  simpa [downSide] using side_append h [] hnew

omit [ByteStream σ] in
theorem upSide_change {w w' : Change σ} (hw : w.AgreesUp whole w')
    (h : c.upSide whole = c'.upSide whole) :
    upSide whole ⟨c.calls, c.relay.change w⟩ = upSide whole ⟨c'.calls, c'.relay.change w'⟩ := by
  have hview : c.relay.upPart whole = c'.relay.upPart whole := congrArg Prod.snd h
  have hnew : (c.relay.change w).upPart whole = (c'.relay.change w').upPart whole := by
    simp only [Relay.upPart, Relay.UpPart.mk.injEq] at hview
    obtain ⟨hitems, hpulled, hup, hcount, hpart⟩ := hview
    simp [Relay.upPart, Relay.change, Change.channel, hitems, hpulled, hup, hcount,
      hw.arrivals, hw.remote hpart]
  simpa [upSide] using side_append h [] hnew

omit [ByteStream σ] in
theorem sending_of_slot (h : c.relay.Booked (.ofCalls c.calls)) (hrunning : c.relay.Running)
    (chunk : Bytes) (hslot : c.relay.slot = some chunk) :
    ∃ size, c.relay.down = .sending size := by
  have hsending := h.sending hrunning
  rw [hslot] at hsending
  generalize c.relay.down = down at hsending
  cases down with
  | reading => cases hsending.1
  | ending => cases hsending.1
  | sending size => exact ⟨size, rfl⟩

/-- Rounds that agree on the side of the direction to the client come to the same there. -/
theorem downSide_rounds (hp : Half Call.isDown part) {bs bs' : List (Round σ)}
    (hagree : List.Forall₂ (fun b b' => b.change.AgreesDown part b'.change) bs bs')
    (hbooked : c.relay.Booked (.ofCalls c.calls)) (hbooked' : c'.relay.Booked (.ofCalls c'.calls))
    (h : c.downSide part = c'.downSide part) (hrunning : (c.rounds bs).relay.Running)
    (hrunning' : (c'.rounds bs').relay.Running) :
    (c.rounds bs).downSide part = (c'.rounds bs').downSide part := by
  induction hagree generalizing c c' with
  | nil => exact h
  | @cons b b' bs bs' hb hbs ih =>
    have hround : (c.round b).relay.Running := running_of_rounds hrunning
    have hround' : (c'.round b').relay.Running := running_of_rounds hrunning'
    obtain ⟨e, hopen, hside, hturn⟩ :=
      downSide_round hp (sending_of_slot hbooked (running_of_round hround)) hround
    obtain ⟨e', hopen', hside', hturn'⟩ :=
      downSide_round hp (sending_of_slot hbooked' (running_of_round hround')) hround'
    have hchange := downSide_change hb h
    have he : e.downSide part = e'.downSide part := hside.trans (hchange.trans hside'.symm)
    apply ih (booked_round hbooked b) (booked_round hbooked' b') _ hrunning hrunning'
    rw [hturn, hturn']
    exact turn_down_alike hp he (hopen.trans hopen'.symm)

/-- Rounds that agree on the side of the direction to the remote stream come to the same there. -/
theorem upSide_rounds (hp : Half Call.isUp whole) {bs bs' : List (Round σ)}
    (hagree : List.Forall₂ (fun b b' => b.change.AgreesUp whole b'.change) bs bs')
    (h : c.upSide whole = c'.upSide whole) (hstage : c.relay.stage = c'.relay.stage)
    (hrunning : (c.rounds bs).relay.Running) (hrunning' : (c'.rounds bs').relay.Running) :
    (c.rounds bs).upSide whole = (c'.rounds bs').upSide whole := by
  induction hagree generalizing c c' with
  | nil => exact h
  | @cons b b' bs bs' hb hbs ih =>
    obtain ⟨hside, hnext⟩ := upSide_round hp (running_of_rounds hrunning)
    obtain ⟨hside', hnext'⟩ := upSide_round hp (running_of_rounds hrunning')
    have hchange : (c.go (.change b.change)).upSide whole =
        (c'.go (.change b'.change)).upSide whole := upSide_change hb h
    obtain ⟨hturn, hturnStage⟩ := turn_up_alike hp hchange hstage
    apply ih _ _ hrunning hrunning'
    · rw [hside, hside', hturn]
    · rw [hnext, hnext', hturnStage]

end Rounds

/-! ### What a relay waits for -/

omit [ByteStream σ] in
/-- The direction to the remote stream waits for an item, or for the remote stream to take bytes or
to pass them on. -/
def UpWaits (c : Course σ) : Prop :=
  (c.relay.up = .pulling ∧ c.relay.channel.items = []) ∨
    ∃ x, (c.calls.filter Call.isUp).getLast? = some x ∧ x.isStalled = true

omit [ByteStream σ] in
/-- The direction to the client waits for something to read, or for the channel to take a chunk or
to pass it on. -/
def DownWaits (c : Course σ) : Prop :=
  (c.relay.down = .reading ∧ (c.calls.filter Call.isDown).getLast? = some (.read .pending)) ∨
    (∃ chunk, c.relay.slot = some chunk ∧ c.relay.channel.blocked = true) ∨
    ∃ size, c.relay.down = .sending size ∧ c.relay.slot = none ∧
      c.relay.channel.flushBlocked = true

theorem upWaits_of_turn (h : (c.turn .up).relay.stage = .open) : (c.turn .up).UpWaits := by
  generalize ht : Relay.Task.up = t at h ⊢
  fun_induction turn t c with
  | case1 c hdue p r hs =>
    subst ht
    have hstep := c.relay.upStep
    rw [hs] at hstep
    generalize c.relay.calls .up = calls at hstep
    cases p with
    | done => cases h
    | failed e => cases h
    | waiting =>
      cases hstep with
      | idle hup hitems => exact .inl ⟨hup, hitems⟩
      | @stalled x remote _ hst =>
        refine .inr ⟨x, ?_, hst⟩
        simp [Call.isUp, Call.isDown_of_isStalled hst]
  | case2 c hdue r hs ih => exact ih h
  | case3 c hdue =>
    subst ht
    rw [h] at hdue
    exact absurd rfl hdue

theorem downWaits_of_turn (h : (c.turn .down).relay.stage = .open) :
    (c.turn .down).DownWaits := by
  generalize ht : Relay.Task.down = t at h ⊢
  fun_induction turn t c with
  | case1 c hdue p r hs =>
    subst ht
    have hstep := c.relay.downStep
    rw [hs] at hstep
    generalize c.relay.calls .down = calls at hstep
    cases p with
    | done => cases h
    | failed e => cases h
    | waiting =>
      cases hstep with
      | starved hdown _ =>
        refine .inl ⟨hdown, ?_⟩
        simp [Call.isDown]
      | unsettled hdown hslot hflush => exact .inr (.inr ⟨_, hdown, hslot, hflush⟩)
      | delivery _ hslot hd =>
        cases hd with
        | blocked hblocked => exact .inr (.inl ⟨_, hslot, hblocked⟩)
  | case2 c hdue r hs ih => exact ih h
  | case3 c hdue =>
    subst ht
    rw [h] at hdue
    exact absurd rfl hdue

section Waits

variable {part : σ → ρ} {whole : σ → ω}

omit [ByteStream σ] in
theorem UpWaits.congr (h : c.UpWaits) (hside : c'.upSide whole = c.upSide whole) : c'.UpWaits := by
  have hcalls : c'.calls.filter Call.isUp = c.calls.filter Call.isUp := congrArg Prod.fst hside
  have hup : c'.relay.up = c.relay.up := congrArg (fun side => side.2.up) hside
  have hitems : c'.relay.channel.items = c.relay.channel.items :=
    congrArg (fun side => side.2.items) hside
  unfold UpWaits at h ⊢
  rwa [hcalls, hup, hitems]

omit [ByteStream σ] in
theorem DownWaits.congr (h : c.DownWaits) (hside : c'.downSide part = c.downSide part) :
    c'.DownWaits := by
  have hcalls : c'.calls.filter Call.isDown = c.calls.filter Call.isDown :=
    congrArg Prod.fst hside
  have hdown : c'.relay.down = c.relay.down := congrArg (fun side => side.2.down) hside
  have hslot : c'.relay.slot = c.relay.slot := congrArg (fun side => side.2.slot) hside
  have hblocked : c'.relay.channel.blocked = c.relay.channel.blocked :=
    congrArg (fun side => side.2.blocked) hside
  have hflush : c'.relay.channel.flushBlocked = c.relay.channel.flushBlocked :=
    congrArg (fun side => side.2.flushBlocked) hside
  unfold DownWaits at h ⊢
  rwa [hcalls, hdown, hslot, hblocked, hflush]

theorem waits_of_round (hp : Half Call.isDown part) (hw : Half Call.isUp whole) {b : Round σ}
    (h : (c.round b).relay.stage = .open) : (c.round b).UpWaits ∧ (c.round b).DownWaits := by
  rw [round_eq] at h ⊢
  have hopen := open_of_turn h
  rw [turn_of_not_due (t := .closing) (by rw [hopen]; rfl)]
  generalize c.go (.change b.change) = d at hopen ⊢
  split at hopen
  · next hfirst =>
    rw [if_pos hfirst]
    have hdown := downWaits_of_turn (open_of_turn hopen)
    exact ⟨upWaits_of_turn hopen, hdown.congr (downSide_turn_up hp _)⟩
  · next hfirst =>
    rw [if_neg hfirst]
    have hup := upWaits_of_turn (open_of_turn hopen)
    exact ⟨hup.congr (upSide_turn_down hw _), downWaits_of_turn hopen⟩

theorem blocked_of_round {b : Round σ} (h : (c.round b).relay.stage = .closing) :
    ∃ chunk, (c.round b).relay.slot = some chunk ∧ (c.round b).relay.channel.blocked = true := by
  have hrunning : (c.round b).relay.Running := by
    intro result hended
    rw [h] at hended
    cases hended
  rw [round_eq] at h hrunning ⊢
  obtain ⟨hidle, hblocked⟩ := turn_closing_of_running hrunning
  rw [hidle] at h ⊢
  exact hblocked h

end Waits

end Course

namespace Calls

theorem handed_filter_isDown (calls : List Call) :
    handed (calls.filter Call.isDown) = handed calls := by
  unfold handed
  rw [List.filterMap_filter]
  apply List.filterMap_congr
  intro x _
  cases x <;> rfl

theorem pulls_filter_isUp (calls : List Call) :
    pulls (calls.filter Call.isUp) = pulls calls := by
  unfold pulls
  rw [List.filterMap_filter]
  apply List.filterMap_congr
  intro x _
  cases x <;> rfl

theorem taken_filter_isUp (calls : List Call) :
    taken (calls.filter Call.isUp) = taken calls := by
  induction calls with
  | nil => rfl
  | cons x calls ih =>
    rw [taken_cons, ← ih]
    cases x <;> rfl

end Calls

namespace Course

open Calls

variable {σ ρ ω : Type} [ByteStream σ]

/-- Whatever happens before each poll, and whichever direction it begins with: as long as two relays go on
whose worlds agree on what concerns one of the directions, that direction has made the same calls in
both. After every poll of a relay that goes on, each direction waits for its own source or for its own
destination; if the client is done, the relay waits for the channel. -/
theorem directions_independent {reading : σ → ρ} {writing : σ → ω}
    (hreading : Half Call.isDown reading) (hwriting : Half Call.isUp writing)
    (channel : Channel) (remote : σ) (bs bs' : List (Round σ)) :
    let c := (start channel remote).rounds bs
    let c' := (start channel remote).rounds bs'
    (List.Forall₂ (fun b b' => b.change.AgreesDown reading b'.change) bs bs' →
        c.relay.Running → c'.relay.Running →
        c.calls.filter Call.isDown = c'.calls.filter Call.isDown ∧
          handed c.calls = handed c'.calls ∧
          c.relay.channel.sent = c'.relay.channel.sent ∧
          c.relay.downCount = c'.relay.downCount) ∧
      (List.Forall₂ (fun b b' => b.change.AgreesUp writing b'.change) bs bs' →
        c.relay.Running → c'.relay.Running →
        c.calls.filter Call.isUp = c'.calls.filter Call.isUp ∧
          pulls c.calls = pulls c'.calls ∧
          taken c.calls = taken c'.calls ∧
          c.relay.upCount = c'.relay.upCount) ∧
      (∀ b, (c.round b).relay.stage = .open → (c.round b).UpWaits ∧ (c.round b).DownWaits) ∧
      (∀ b, (c.round b).relay.stage = .closing → ∃ chunk,
        (c.round b).relay.slot = some chunk ∧ (c.round b).relay.channel.blocked = true) ∧
      (∀ b, (c.round b).relay = b.order.foldl (fun r t => r.turn t) (c.relay.change b.change)) ∧
      ∃ moves, c = (start channel remote).run moves := by
  intro c c'
  refine ⟨?_, ?_, fun b => waits_of_round hreading hwriting, fun b => blocked_of_round, ?_, ?_⟩
  · intro hagree hrunning hrunning'
    have hbooked : (start channel remote).relay.Booked (.ofCalls (start channel remote).calls) :=
      .start channel remote
    have hside : c.downSide reading = c'.downSide reading :=
      downSide_rounds hreading hagree hbooked hbooked rfl hrunning hrunning'
    have hcalls : c.calls.filter Call.isDown = c'.calls.filter Call.isDown :=
      congrArg Prod.fst hside
    refine ⟨hcalls, ?_, congrArg (fun side => side.2.sent) hside,
      congrArg (fun side => side.2.downCount) hside⟩
    rw [← handed_filter_isDown, hcalls, handed_filter_isDown]
  · intro hagree hrunning hrunning'
    have hside : c.upSide writing = c'.upSide writing :=
      upSide_rounds hwriting hagree rfl rfl hrunning hrunning'
    have hcalls : c.calls.filter Call.isUp = c'.calls.filter Call.isUp := congrArg Prod.fst hside
    refine ⟨hcalls, ?_, ?_, congrArg (fun side => side.2.upCount) hside⟩
    · rw [← pulls_filter_isUp, hcalls, pulls_filter_isUp]
    · rw [← taken_filter_isUp, hcalls, taken_filter_isUp]
  · intro b
    exact relay_round b c
  · exact exists_rounds_eq bs (start channel remote)

/-- The same chunk reaches the client from a remote stream that takes bytes and from one that takes
none, and the same message the remote stream, whether the channel takes chunks or not. -/
theorem directions_independent_of_stall :
    let item : Item := .message (.binary [7])
    let calm : Round Script := ⟨⟨[item], false, false, none, none, fun s => s.feed [1, 2]⟩, false⟩
    let deaf : Round Script :=
      ⟨⟨[item, item], false, false, none, none, fun s => { s.feed [1, 2] with credit := some 0 }⟩,
        true⟩
    let blocked : Round Script := ⟨⟨[item], true, true, none, none, fun s => s.feed [1, 2]⟩, true⟩
    let c (b : Round Script) : Course Script := (start Channel.idle Script.idle).rounds [b]
    handed (c calm).calls = handed (c deaf).calls ∧ taken (c calm).calls = taken (c blocked).calls ∧
      handed (c calm).calls = [.binary [1, 2]] ∧ taken (c deaf).calls = [] ∧
      taken (c calm).calls = [7] ∧ handed (c blocked).calls = [] := by
  intro item calm deaf blocked c
  have hrunning {b : Round Script} (h : (c b).relay.stage = .open) : (c b).relay.Running := by
    intro result hended
    rw [h] at hended
    cases hended
  have hcalm : (c calm).relay.Running := hrunning (by simp only [c, calm, item]; cbv)
  have hfeed {s s' : Script} (h : s.reading = s'.reading) :
      (s.feed [1, 2]).reading = { s'.feed [1, 2] with credit := some 0 }.reading := by
    simpa [Script.feed, Script.reading, Script.idle] using h
  have hdeaf := (directions_independent Script.half_reading Script.half_writing Channel.idle
    Script.idle [calm] [deaf]).1 (.cons ⟨rfl, rfl, rfl, rfl, hfeed⟩ .nil) hcalm
    (hrunning (by simp only [c, deaf, item]; cbv))
  have hwrite {s s' : Script} (h : s.writing = s'.writing) :
      (s.feed [1, 2]).writing = (s'.feed [1, 2]).writing := by
    simpa [Script.feed, Script.writing] using h
  have hblocked := (directions_independent Script.half_reading Script.half_writing Channel.idle
    Script.idle [calm] [blocked]).2.1 (.cons ⟨rfl, hwrite⟩ .nil) hcalm
    (hrunning (by simp only [c, blocked, item]; cbv))
  refine ⟨hdeaf.2.1, hblocked.2.2.1, ?_, ?_, ?_, ?_⟩
  all_goals
    simp only [c, calm, deaf, blocked, item]
    cbv

end Course

end Switchyard
