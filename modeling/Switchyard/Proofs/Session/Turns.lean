import Switchyard.Proofs.Session.Accounts
import Switchyard.Proofs.Session.Ending
import Switchyard.Proofs.Session.Sides

/-!
# Turns of a relay

A poll of a relay gives each direction a turn, in which it goes on until it has to wait. Here turns
and rounds of turns are recorded as a course of steps is, and a turn is described by what it does to
the two sides of the relay and by how far it brings the relay.
-/

namespace Switchyard

/-- What happens before a poll, and the direction that the poll begins with. -/
structure Round (σ : Type) where
  change : Change σ
  downFirst : Bool

/-- The order of the turns. -/
def Round.order {σ : Type} (b : Round σ) : List Relay.Task :=
  if b.downFirst then [.down, .up, .closing] else [.up, .down, .closing]

namespace Course

variable {σ ρ ω : Type}

/-- One side of a course: the calls of a kind, and what can be seen of the relay. -/
def side {α : Type} (kind : Call → Bool) (view : Relay σ → α) (c : Course σ) : List Call × α :=
  (c.calls.filter kind, view c.relay)

/-- The side of the direction to the client. -/
def downSide (part : σ → ρ) : Course σ → List Call × Relay.DownPart ρ :=
  side Call.isDown (Relay.downPart part)

/-- The side of the direction to the remote stream. -/
def upSide (part : σ → ω) : Course σ → List Call × Relay.UpPart ω :=
  side Call.isUp (Relay.upPart part)

theorem side_append {α : Type} {kind : Call → Bool} {view : Relay σ → α} {c c' : Course σ}
    (h : c.side kind view = c'.side kind view) (calls : List Call) {r r' : Relay σ}
    (hr : view r = view r') :
    side kind view ⟨c.calls ++ calls, r⟩ = side kind view ⟨c'.calls ++ calls, r'⟩ := by
  have hcalls : c.calls.filter kind = c'.calls.filter kind := congrArg Prod.fst h
  simp [side, hcalls, hr]

variable [ByteStream σ]

/-- Goes on with a task, if it is due, until it has to wait, and records the calls. -/
def turn (t : Relay.Task) (c : Course σ) : Course σ :=
  if Relay.isDue t c.relay.stage then
    match _h : c.relay.step t with
    | .stop p r => ⟨c.calls ++ c.relay.calls t, r.after t p⟩
    | .next r => turn t ⟨c.calls ++ c.relay.calls t, r⟩
  else c
termination_by c.relay.left t
decreasing_by exact Relay.left_lt _h

/-- A change, and a poll after it: a turn of each direction, and then the closing. -/
def round (b : Round σ) (c : Course σ) : Course σ :=
  b.order.foldl (fun c t => c.turn t) (c.go (.change b.change))

def rounds (bs : List (Round σ)) (c : Course σ) : Course σ :=
  bs.foldl (fun c b => c.round b) c

theorem turn_of_not_due {t : Relay.Task} {c : Course σ}
    (h : Relay.isDue t c.relay.stage = false) : c.turn t = c := by
  unfold turn
  simp [h]

theorem turn_of_stop {t : Relay.Task} {c : Course σ} {p : Relay.Progress} {r : Relay σ}
    (hdue : Relay.isDue t c.relay.stage = true) (h : c.relay.step t = .stop p r) :
    c.turn t = ⟨c.calls ++ c.relay.calls t, r.after t p⟩ := by
  unfold turn
  rw [if_pos hdue]
  split
  · next h' =>
    rw [h] at h'
    cases h'
    rfl
  · next h' =>
    rw [h] at h'
    cases h'

theorem turn_of_next {t : Relay.Task} {c : Course σ} {r : Relay σ}
    (hdue : Relay.isDue t c.relay.stage = true) (h : c.relay.step t = .next r) :
    c.turn t = turn t ⟨c.calls ++ c.relay.calls t, r⟩ := by
  conv => lhs; unfold turn
  rw [if_pos hdue]
  split
  · next h' =>
    rw [h] at h'
    cases h'
  · next h' =>
    rw [h] at h'
    cases h'
    rfl

/-- A turn is a series of steps. -/
theorem exists_turn_eq (t : Relay.Task) (c : Course σ) :
    ∃ n, c.turn t = c.run (List.replicate n (.act t)) := by
  fun_induction turn t c with
  | case1 c hdue p r h =>
    refine ⟨1, ?_⟩
    rw [List.replicate_one, run_cons, run_nil, go_act hdue, Relay.act, h, Relay.Step.relay_stop]
  | case2 c hdue r h ih =>
    obtain ⟨n, hn⟩ := ih
    refine ⟨n + 1, ?_⟩
    rw [hn, List.replicate_succ, run_cons, go_act hdue, Relay.act, h, Relay.Step.relay_next]
  | case3 c hdue => exact ⟨0, rfl⟩

/-- With its record or without it, a turn is the same. -/
theorem relay_turn (t : Relay.Task) (c : Course σ) : (c.turn t).relay = c.relay.turn t := by
  fun_induction turn t c with
  | case1 c hdue p r h =>
    have hgo : c.relay.go t = (p, r) := by
      unfold Relay.go
      split <;> simp_all
    rw [Relay.turn, if_pos hdue, hgo]
  | case2 c hdue r h ih =>
    have hgo : c.relay.go t = r.go t := by
      conv => lhs; unfold Relay.go
      split <;> simp_all
    have hdue' : Relay.isDue t r.stage = true := by rwa [Relay.stage_of_next h]
    rw [ih, Relay.turn, Relay.turn, if_pos hdue, if_pos hdue', hgo]
  | case3 c hdue => rw [Relay.turn, if_neg hdue]

/-! ### What a turn does to the sides -/

variable {α : Type} {kind : Call → Bool} {view : Relay σ → α} {c c' : Course σ} {t : Relay.Task}

/-- Two turns come to the same on a side that settles each of their steps. -/
theorem turn_alike
    (hstep : ∀ {r r' : Relay σ}, view r = view r' →
      r.calls t = r'.calls t ∧ Relay.Alike view (r.step t) (r'.step t))
    (hafter : ∀ {p : Relay.Progress} {r r' : Relay σ}, view r = view r' → r.stage = r'.stage →
      view (r.after t p) = view (r'.after t p) ∧ (r.after t p).stage = (r'.after t p).stage)
    (h : c.side kind view = c'.side kind view) (hstage : c.relay.stage = c'.relay.stage) :
    (c.turn t).side kind view = (c'.turn t).side kind view ∧
      (c.turn t).relay.stage = (c'.turn t).relay.stage := by
  fun_induction turn t c generalizing c' with
  | case1 c hdue p r hs =>
    obtain ⟨hcalls, halike⟩ := hstep (congrArg Prod.snd h)
    rw [hs] at halike
    generalize hs' : c'.relay.step t = s' at halike
    cases halike with
    | @stop _ _ r' hview =>
      have hstages : r.stage = r'.stage :=
        (Relay.stage_of_stop hs).trans (hstage.trans (Relay.stage_of_stop hs').symm)
      obtain ⟨hafterView, hafterStage⟩ := hafter hview hstages
      rw [turn_of_stop (hstage ▸ hdue) hs', hcalls]
      exact ⟨side_append h _ hafterView, hafterStage⟩
  | case2 c hdue r hs ih =>
    obtain ⟨hcalls, halike⟩ := hstep (congrArg Prod.snd h)
    rw [hs] at halike
    generalize hs' : c'.relay.step t = s' at halike
    cases halike with
    | @next _ r' hview =>
      rw [turn_of_next (hstage ▸ hdue) hs']
      apply ih
      · rw [hcalls]
        exact side_append h _ hview
      · exact (Relay.stage_of_next hs).trans (hstage.trans (Relay.stage_of_next hs').symm)
  | case3 c hdue =>
    rw [turn_of_not_due (by rw [← hstage]; exact Bool.eq_false_iff.2 hdue)]
    exact ⟨h, hstage⟩

/-- A turn leaves a side alone that none of its steps does anything to. -/
theorem turn_keeps
    (hstep : ∀ r : Relay σ, (∀ x ∈ r.calls t, kind x = false) ∧ view (r.act t) = view r)
    (c : Course σ) : (c.turn t).side kind view = c.side kind view := by
  have hgo (c : Course σ) {r : Relay σ} (hr : (c.relay.step t).relay t = r) :
      side kind view ⟨c.calls ++ c.relay.calls t, r⟩ = c.side kind view := by
    obtain ⟨hcalls, hview⟩ := hstep c.relay
    have hnone : (c.relay.calls t).filter kind = [] := by
      rw [List.filter_eq_nil_iff]
      intro x hx
      rw [hcalls x hx]
      exact Bool.false_ne_true
    rw [Relay.act, hr] at hview
    simp [side, hnone, hview]
  fun_induction turn t c with
  | case1 c hdue p r hs => exact hgo c (by rw [hs, Relay.Step.relay_stop])
  | case2 c hdue r hs ih => exact ih.trans (hgo c (by rw [hs, Relay.Step.relay_next]))
  | case3 c hdue => rfl

section Sides

variable {part : σ → ρ} {whole : σ → ω}

theorem turn_down_alike (hp : Half Call.isDown part) (h : c.downSide part = c'.downSide part)
    (hstage : c.relay.stage = c'.relay.stage) :
    (c.turn .down).downSide part = (c'.turn .down).downSide part := by
  refine (turn_alike (fun hview => Relay.step_down_alike hp hview) ?_ h hstage).1
  intro p r r' hview hstage
  have hcount : r.downCount = r'.downCount := congrArg Relay.DownPart.downCount hview
  rw [Relay.after_downPart, Relay.after_downPart]
  refine ⟨hview, ?_⟩
  cases p <;> simp [Relay.after, hstage, hcount]

theorem turn_up_alike (hp : Half Call.isUp whole) (h : c.upSide whole = c'.upSide whole)
    (hstage : c.relay.stage = c'.relay.stage) :
    (c.turn .up).upSide whole = (c'.turn .up).upSide whole ∧
      (c.turn .up).relay.stage = (c'.turn .up).relay.stage := by
  refine turn_alike (fun hview => Relay.step_up_alike hp hview) ?_ h hstage
  intro p r r' hview hstage
  rw [Relay.after_upPart, Relay.after_upPart]
  refine ⟨hview, ?_⟩
  cases p <;> simp [Relay.after, hstage]

theorem downSide_turn_up (hp : Half Call.isDown part) (c : Course σ) :
    (c.turn .up).downSide part = c.downSide part := by
  apply turn_keeps
  intro r
  exact ⟨r.upStep.isDown, r.upStep.downPart_eq hp⟩

theorem upSide_turn_down (hp : Half Call.isUp whole) (c : Course σ) :
    (c.turn .down).upSide whole = c.upSide whole := by
  apply turn_keeps
  intro r
  refine ⟨?_, r.downStep.upPart_eq hp⟩
  intro x hx
  simp [Call.isUp, r.downStep.isDown x hx]

end Sides

/-! ### How far a turn brings the relay -/

/-- A relay that has ended does nothing any more. -/
theorem turn_of_ended {result : Except RelayError Closing}
    (h : c.relay.stage = .ended result) (t : Relay.Task) : c.turn t = c := by
  apply turn_of_not_due
  rw [h]
  cases t <;> rfl

theorem running_of_turn (h : (c.turn t).relay.Running) : c.relay.Running := by
  intro result hended
  rw [turn_of_ended hended] at h
  exact h result hended

theorem open_of_turn (h : (c.turn t).relay.stage = .open) : c.relay.stage = .open := by
  fun_induction turn t c with
  | case1 c hdue p r hs =>
    have hstage := Relay.stage_of_stop hs
    cases p with
    | waiting => simpa [hstage] using h
    | done => cases t <;> cases h
    | failed e => cases t <;> cases h
  | case2 c hdue r hs ih => exact (Relay.stage_of_next hs).symm.trans (ih h)
  | case3 c hdue => exact h

/-- Only the direction to the remote stream brings the relay on without ending it. -/
theorem stage_turn (ht : t ≠ .up) (h : (c.turn t).relay.Running) :
    (c.turn t).relay.stage = c.relay.stage := by
  fun_induction turn t c with
  | case1 c hdue p r hs =>
    have hstage := Relay.stage_of_stop hs
    cases p with
    | waiting => simpa using hstage
    | done => cases t <;> first | exact absurd rfl ht | exact absurd rfl (h _)
    | failed e => cases t <;> first | exact absurd rfl ht | exact absurd rfl (h _)
  | case2 c hdue r hs ih => exact (ih h).trans (Relay.stage_of_next hs)
  | case3 c hdue => rfl

/-- A relay that goes on after the closing of the channel was due has not even begun to close it.
-/
theorem turn_closing_of_running (h : (c.turn .closing).relay.Running) :
    c.turn .closing = c ∧ (c.relay.stage = .closing →
      ∃ chunk, c.relay.slot = some chunk ∧ c.relay.channel.blocked = true) := by
  cases hdue : Relay.isDue .closing c.relay.stage with
  | false =>
    refine ⟨turn_of_not_due hdue, ?_⟩
    intro hclosing
    rw [hclosing] at hdue
    cases hdue
  | true =>
    have hclosing (r : Relay σ) (calls : List Call) (hslot : r.slot = none)
        (hdue : Relay.isDue .closing r.stage = true) :
        ¬ (turn .closing ⟨calls, r⟩).relay.Running := by
      have hstep : r.step .closing = .stop .done { r with channel := r.channel.close.2 } := by
        simp [Relay.step, Relay.stepClosing, hslot]
      rw [turn_of_stop (c := ⟨calls, r⟩) hdue hstep]
      intro hrunning
      exact hrunning _ rfl
    have hs := c.relay.closingStep
    generalize hcalls : c.relay.calls .closing = calls, hstep : c.relay.step .closing = s at hs
    cases hs with
    | closed hslot _ => exact absurd h (hclosing c.relay c.calls hslot hdue)
    | delivery hslot hd =>
      cases hd with
      | blocked hblocked =>
        rw [turn_of_stop hdue hstep, hcalls]
        exact ⟨by simp, fun _ => ⟨_, hslot, hblocked⟩⟩
      | handed =>
        rw [turn_of_next hdue hstep] at h
        exact absurd h (hclosing _ _ rfl hdue)
      | refused =>
        rw [turn_of_stop hdue hstep] at h
        exact absurd rfl (h _)

/-- A chunk that the channel does not take stays where it is. -/
theorem turn_down_of_blocked {chunk : Bytes} {size : Nat} (hdown : c.relay.down = .sending size)
    (hslot : c.relay.slot = some chunk) (hblocked : c.relay.channel.blocked = true) :
    c.turn .down = c := by
  cases hdue : Relay.isDue .down c.relay.stage with
  | false => exact turn_of_not_due hdue
  | true =>
    have hcalls : c.relay.calls .down = [] := by
      simp [Relay.calls, Relay.callsDown, Relay.callsDeliver, hdown, hslot, hblocked]
    have hstep : c.relay.step .down = .stop .waiting c.relay := by
      simp [Relay.step, Relay.stepDown, Relay.deliver, hdown, hslot, hblocked]
    rw [turn_of_stop hdue hstep, hcalls]
    simp

/-! ### Rounds -/

section Rounds

variable {part : σ → ρ} {whole : σ → ω} {b b' : Round σ}

theorem round_eq (b : Round σ) (c : Course σ) :
    c.round b = (if b.downFirst then ((c.go (.change b.change)).turn .down).turn .up
      else ((c.go (.change b.change)).turn .up).turn .down).turn .closing := by
  unfold round Round.order
  split <;> rfl

/-- A round is a series of moves. -/
theorem exists_round_eq (b : Round σ) (c : Course σ) : ∃ moves, c.round b = c.run moves := by
  have hturns (tasks : List Relay.Task) (d : Course σ) (h : ∃ moves, d = c.run moves) :
      ∃ moves, tasks.foldl (fun c t => c.turn t) d = c.run moves := by
    induction tasks generalizing d with
    | nil => exact h
    | cons t tasks ih =>
      apply ih
      obtain ⟨moves, rfl⟩ := h
      obtain ⟨n, hn⟩ := exists_turn_eq t (c.run moves)
      exact ⟨moves ++ List.replicate n (.act t), hn.trans (run_append _ _ _).symm⟩
  exact hturns b.order _ ⟨[.change b.change], rfl⟩

theorem exists_rounds_eq (bs : List (Round σ)) (c : Course σ) :
    ∃ moves, c.rounds bs = c.run moves := by
  induction bs generalizing c with
  | nil => exact ⟨[], rfl⟩
  | cons b bs ih =>
    obtain ⟨moves, hmoves⟩ := exists_round_eq b c
    obtain ⟨later, hlater⟩ := ih (c.round b)
    refine ⟨moves ++ later, ?_⟩
    rw [run_append, ← hmoves, ← hlater]
    rfl

/-- With its record or without it, a round is a change and turns in the given order. -/
theorem relay_round (b : Round σ) (c : Course σ) :
    (c.round b).relay = b.order.foldl (fun r t => r.turn t) (c.relay.change b.change) := by
  have hturns (tasks : List Relay.Task) (d : Course σ) :
      (tasks.foldl (fun c t => c.turn t) d).relay = tasks.foldl (fun r t => r.turn t) d.relay := by
    induction tasks generalizing d with
    | nil => rfl
    | cons t tasks ih => rw [List.foldl_cons, List.foldl_cons, ih, relay_turn]
  exact hturns b.order _

theorem booked_round (h : c.relay.Booked (.ofCalls c.calls)) (b : Round σ) :
    (c.round b).relay.Booked (.ofCalls (c.round b).calls) := by
  obtain ⟨moves, hmoves⟩ := exists_round_eq b c
  rw [hmoves]
  exact booked_run h moves

theorem running_of_round (h : (c.round b).relay.Running) : c.relay.Running := by
  have hturns (tasks : List Relay.Task) (d : Course σ)
      (h : (tasks.foldl (fun c t => c.turn t) d).relay.Running) : d.relay.Running := by
    induction tasks generalizing d with
    | nil => exact h
    | cons t tasks ih => exact running_of_turn (ih _ h)
  have hchange : (c.go (.change b.change)).relay.Running := hturns b.order _ h
  exact hchange

theorem running_of_rounds {bs : List (Round σ)} (h : (c.rounds bs).relay.Running) :
    c.relay.Running := by
  induction bs generalizing c with
  | nil => exact h
  | cons b bs ih => exact running_of_round (ih h)

end Rounds

end Course

end Switchyard
