import Switchyard.Proofs.Session.Downstream
import Switchyard.Proofs.Session.Upstream

/-!
# The end of a relay

A relay closes each of its sides when it owes that side nothing more, and once. The remote stream is
shut down when the client is done and everything pulled was written and flushed; the channel is
closed when the remote stream has ended and everything read was handed over and flushed, or when the
remote stream was shut down. An error ends the relay, and nothing is called after it. `Reached` is
what the record says about the stage of a relay; that nothing of some kind is called any more comes
from a property of relays that every step keeps (`Course.exists_tail`).
-/

namespace Switchyard

/-- The client is done: it has closed the channel, or the channel has ended. -/
def Item.isLast : Item → Bool
  | .message (.close _) => true
  | .finish => true
  | _ => false

namespace Call

/-- The error with which a call ends a relay whose directions are both open. -/
def fault? : Call → Option RelayError
  | pull (.failure e) => some (.channel e)
  | send _ (.error e) => some (.channel e)
  | close (.error e) => some (.channel e)
  | read (.failed e) => some (.remote e)
  | x => x.failure?.map .remote

/-- Something is carried to the remote stream. -/
def carriesUp : Call → Bool
  | pull _ => true
  | write _ _ => true
  | flush _ => true
  | _ => false

/-- Something is carried to the client. -/
def carriesDown : Call → Bool
  | read _ => true
  | send _ _ => true
  | settle => true
  | _ => false

theorem carriesUp_of_isDown {x : Call} (h : x.isDown = true) : x.carriesUp = false := by
  cases x <;> first | rfl | cases h

theorem isDown_of_carriesDown {x : Call} (h : x.carriesDown = true) : x.isDown = true := by
  cases x <;> first | rfl | cases h

theorem fault_of_failure {x : Call} {e : StreamError} (h : x.failure? = some e) :
    x.fault? = some (.remote e) := by
  unfold failure? at h
  split at h <;> cases h <;> rfl

theorem fault_of_isStalled {x : Call} (h : x.isStalled = true) : x.fault? = none := by
  unfold isStalled at h
  split at h <;> first | rfl | cases h

theorem ne_shutdown_of_fault {x : Call} {e : RelayError} (h : x.fault? = some e) :
    x ≠ .shutdown (.ready ()) := by
  rintro rfl
  cases h

end Call

namespace Calls

/-- The last item that was pulled says that the client is done. -/
def ClientDone (calls : List Call) : Prop :=
  ∃ item, (pulls calls).getLast? = some item ∧ item.isLast = true

variable {calls : List Call} {x : Call}

theorem clientDone_concat (hx : x.pulled? = none) :
    ClientDone (calls ++ [x]) ↔ ClientDone calls := by
  simp [ClientDone, hx]

theorem clientDone_pull (calls : List Call) (item : Item) :
    ClientDone (calls ++ [.pull item]) ↔ item.isLast = true := by
  simp [ClientDone, Call.pulled?]

theorem not_mem_concat {y : Call} (h : y ∉ calls) (hx : x ≠ y) : y ∉ calls ++ [x] := by
  simp [h, hx.symm]

end Calls

namespace Relay

open Calls

theorem eq_ending_iff_isLast {item : Item} {up : UpPhase} (h : afterItem item = .ok up) :
    up = .ending ↔ item.isLast = true := by
  cases item with
  | failure e => cases h
  | finish => cases h; exact ⟨fun _ => rfl, fun _ => rfl⟩
  | message m =>
    cases m with
    | close frame => cases h; exact ⟨fun _ => rfl, fun _ => rfl⟩
    | _ => cases h; exact ⟨nofun, nofun⟩

theorem eq_failure_of_error {item : Item} {e : ChannelError} (h : afterItem item = .error e) :
    item = .failure e := by
  cases item with
  | failure e => cases h; rfl
  | finish => cases h
  | message m => cases m <;> cases h

/-! ### What the record says about the stage -/

/-- The stage of a relay with this record. -/
inductive Reached : Stage → List Call → Prop
  | open {calls : List Call} : .shutdown (.ready ()) ∉ calls → Reached .open calls
  | closing {calls : List Call} : .shutdown (.ready ()) ∈ calls → Reached .closing calls
  | inbound {calls : List Call} {up : UInt64} : .shutdown (.ready ()) ∈ calls → ClosesLast calls →
      Reached (.ended (.ok ⟨.inbound, up, 0⟩)) calls
  | outbound {calls : List Call} {down : UInt64} : .shutdown (.ready ()) ∉ calls →
      .read (.ready []) ∈ calls →
      Reached (.ended (.ok ⟨.outbound, 0, down⟩)) (calls ++ [.close (.ok ())])
  | failed {calls : List Call} {x : Call} {e : RelayError} : .shutdown (.ready ()) ∉ calls →
      x.fault? = some e → Reached (.ended (.error e)) (calls ++ [x])

/-- The invariant of the end of a relay. -/
structure Ending {σ : Type} (r : Relay σ) (calls : List Call) : Prop where
  done : r.up = .ending ↔ ClientDone calls
  finished : r.down = .ending → .read (.ready []) ∈ calls
  reached : Reached r.stage calls

variable {σ : Type} {r : Relay σ} {calls calls' : List Call} {s : Step σ}

theorem Reached.not_mem_of_open (h : Reached .open calls) : .shutdown (.ready ()) ∉ calls := by
  cases h with
  | «open» hs => exact hs

theorem Reached.mem_of_closing (h : Reached .closing calls) : .shutdown (.ready ()) ∈ calls := by
  cases h with
  | closing hs => exact hs

namespace Ending

variable {r' : Relay σ}

/-- A call that pulls nothing. -/
theorem concat (h : Ending r calls) {x : Call} (hx : x.pulled? = none)
    (hup : r'.up = .ending ↔ r.up = .ending)
    (hdown : r'.down = .ending → r.down = .ending ∨ x = .read (.ready []))
    (hr : Reached r'.stage (calls ++ [x])) : Ending r' (calls ++ [x]) where
  done := by rw [hup, h.done, clientDone_concat hx]
  finished hd := by
    rcases hdown hd with hd | rfl
    · exact List.mem_append_left _ (h.finished hd)
    · exact List.mem_append_right _ (List.mem_singleton_self _)
  reached := hr

/-- A call after which both directions are open still. -/
theorem concat_open (h : Ending r calls) (hopen : r.stage = .open) {x : Call}
    (hx : x.pulled? = none) (hne : x ≠ .shutdown (.ready ()))
    (hup : r'.up = .ending ↔ r.up = .ending)
    (hdown : r'.down = .ending → r.down = .ending ∨ x = .read (.ready []))
    (hstage : r'.stage = .open) : Ending r' (calls ++ [x]) := by
  have hreached := h.reached
  rw [hopen] at hreached
  refine h.concat hx hup hdown ?_
  rw [hstage]
  exact .open (not_mem_concat hreached.not_mem_of_open hne)

/-- A call that ends the relay with an error. -/
theorem concat_fault (h : Ending r calls) (hopen : r.stage = .open) {x : Call} {e : RelayError}
    (hx : x.pulled? = none) (hf : x.fault? = some e)
    (hup : r'.up = .ending ↔ r.up = .ending) (hdown : r'.down = r.down)
    (hstage : r'.stage = .ended (.error e)) :
    Ending r' (calls ++ [x]) := by
  have hreached := h.reached
  rw [hopen] at hreached
  refine h.concat hx hup (fun hd => .inl (hdown ▸ hd)) ?_
  rw [hstage]
  exact .failed hreached.not_mem_of_open hf

theorem downStep [ByteStream σ] (h : Ending r calls) (hopen : r.stage = .open)
    (hs : DownStep r calls' s) : Ending (s.relay .down) (calls ++ calls') := by
  cases hs with
  | got _ _ => exact h.concat_open hopen rfl nofun .rfl nofun hopen
  | finished _ _ => exact h.concat_open hopen rfl nofun .rfl (fun _ => .inr rfl) hopen
  | starved _ _ => exact h.concat_open hopen rfl nofun .rfl .inl hopen
  | failed _ _ => exact h.concat_fault hopen rfl rfl .rfl rfl rfl
  | delivery _ _ hd =>
    cases hd with
    | blocked _ => simpa using h
    | handed => exact h.concat_open hopen rfl nofun .rfl .inl hopen
    | refused => exact h.concat_fault hopen rfl rfl .rfl rfl rfl
  | unsettled _ _ _ => simpa using h
  | settled _ _ => exact h.concat_open hopen rfl nofun .rfl nofun hopen
  | closed hdown =>
    have hreached := h.reached
    rw [hopen] at hreached
    exact h.concat rfl .rfl .inl (.outbound hreached.not_mem_of_open (h.finished hdown))
  | unclosed _ => exact h.concat_fault hopen rfl rfl .rfl rfl rfl

theorem closingStep (h : Ending r calls) (hclosing : r.stage = .closing)
    (hs : ClosingStep r calls' s) : Ending (s.relay .closing) (calls ++ calls') := by
  have hreached := h.reached
  rw [hclosing] at hreached
  have hshut {x : Call} : .shutdown (.ready ()) ∈ calls ++ [x] :=
    List.mem_append_left _ hreached.mem_of_closing
  cases hs with
  | delivery _ hd =>
    cases hd with
    | blocked _ => simpa using h
    | handed =>
      refine h.concat rfl .rfl .inl ?_
      rw [Step.relay_next, hclosing]
      exact .closing hshut
    | refused => exact h.concat rfl .rfl .inl (.inbound hshut ⟨_, _, rfl, .inr ⟨_, _, rfl⟩⟩)
  | closed _ _ => exact h.concat rfl .rfl .inl (.inbound hshut ⟨_, _, rfl, .inl ⟨_, rfl⟩⟩)

theorem upStep [ByteStream σ] (h : Ending r calls) (hopen : r.stage = .open)
    (hs : UpStep r calls' s) : Ending (s.relay .up) (calls ++ calls') := by
  have hreached := h.reached
  rw [hopen] at hreached
  have hnot := hreached.not_mem_of_open
  cases hs with
  | idle _ _ => simpa using h
  | pulled _ _ hi =>
    refine ⟨?_, fun hd => List.mem_append_left _ (h.finished hd), ?_⟩
    · rw [clientDone_pull]
      exact eq_ending_iff_isLast hi
    · rw [Step.relay_next, hopen]
      exact .open (not_mem_concat hnot nofun)
  | faulty hup _ hi =>
    cases eq_failure_of_error hi
    refine ⟨?_, fun hd => List.mem_append_left _ (h.finished hd), .failed hnot rfl⟩
    rw [clientDone_pull, Step.relay_stop, after_up, hup]
    exact ⟨nofun, nofun⟩
  | wrote hup =>
    rw [List.append_nil]
    exact ⟨by simpa [hup] using h.done, h.finished, h.reached⟩
  | took hup _ => exact h.concat_open hopen rfl nofun (by simp [hup]) .inl hopen
  | flushed hup _ => exact h.concat_open hopen rfl nofun (by simp [hup]) .inl hopen
  | shut _ _ =>
    refine h.concat rfl (by simp) (fun hd => .inl (by simpa using hd)) (.closing ?_)
    exact List.mem_append_right _ (List.mem_singleton_self _)
  | stalled hx hst =>
    refine h.concat_open hopen hx.silent.1 ?_ (by simp) (fun hd => .inl (by simpa using hd))
      (by simpa using hopen)
    rintro rfl
    cases hst
  | failed hx hf =>
    exact h.concat_fault hopen hx.silent.1 (Call.fault_of_failure hf) (by simp) (by simp) rfl

end Ending

/-! ### What is not called any more -/

theorem Delivery.isDown {chunk : Bytes} (h : Delivery chunk r calls s) :
    ∀ x ∈ calls, x.isDown = true := by
  cases h <;> simp [Call.isDown]

theorem ClosingStep.isDown (h : ClosingStep r calls s) : ∀ x ∈ calls, x.isDown = true := by
  cases h with
  | delivery _ hd => exact hd.isDown
  | closed _ _ => simp [Call.isDown]

/-- Closing the channel neither reads nor flushes. -/
theorem ClosingStep.closes (h : ClosingStep r calls s) :
    ∀ x ∈ calls, (∃ m answer, x = .send m answer) ∨ ∃ answer, x = .close answer := by
  cases h with
  | delivery _ hd => cases hd <;> simp
  | closed _ _ => simp

theorem ClosingStep.down_eq (h : ClosingStep r calls s) (hdown : r.down = .ending)
    (hslot : r.slot = none) :
    (s.relay .closing).down = .ending ∧ (s.relay .closing).slot = none := by
  cases h <;> simp_all

theorem ClosingStep.stage_ne (h : ClosingStep r calls s) (hstage : r.stage ≠ .open) :
    (s.relay .closing).stage ≠ .open := by
  cases h with
  | delivery _ hd => cases hd <;> simp_all [after]
  | closed _ _ => simp [after]

variable [ByteStream σ] {t : Task} {x : Call}

theorem UpStep.isDown (h : UpStep r calls s) : ∀ x ∈ calls, x.isDown = false := by
  cases h with
  | stalled _ hst => simpa using Call.isDown_of_isStalled hst
  | failed _ hf => simpa using Call.isDown_of_failure hf
  | _ => simp [Call.isDown]

theorem DownStep.isDown (h : DownStep r calls s) : ∀ x ∈ calls, x.isDown = true := by
  cases h with
  | delivery _ _ hd => exact hd.isDown
  | _ => simp [Call.isDown]

/-- A direction that ends keeps to that. -/
theorem UpStep.up_eq (h : UpStep r calls s) (hup : r.up = .ending) :
    (s.relay .up).up = .ending := by
  cases h <;> simp_all

theorem UpStep.down_eq (h : UpStep r calls s) :
    (s.relay .up).down = r.down ∧ (s.relay .up).slot = r.slot := by
  cases h <;> simp

theorem DownStep.down_eq (h : DownStep r calls s) (hdown : r.down = .ending)
    (hslot : r.slot = none) : (s.relay .down).down = .ending ∧ (s.relay .down).slot = none := by
  cases h <;> simp_all

/-- When the remote stream is shut down, nothing is carried to it. -/
theorem act_of_up_ending (hup : r.up = .ending) (t : Task) :
    (∀ x ∈ r.calls t, x.carriesUp = false) ∧ (r.act t).up = .ending := by
  cases t with
  | up =>
    refine ⟨fun x hx => ?_, r.upStep.up_eq hup⟩
    simp only [calls, callsUp, hup, List.mem_singleton] at hx
    subst hx
    rfl
  | down =>
    refine ⟨fun x hx => ?_, r.downStep.silent.1.trans hup⟩
    exact Call.carriesUp_of_isDown (r.downStep.isDown x hx)
  | closing =>
    refine ⟨fun x hx => ?_, r.closingStep.silent.1.trans hup⟩
    exact Call.carriesUp_of_isDown (r.closingStep.isDown x hx)

/-- When the channel is closed, nothing is carried to the client. -/
theorem act_of_down_ending (hdown : r.down = .ending) (hslot : r.slot = none) (t : Task) :
    (∀ x ∈ r.calls t, x.carriesDown = false) ∧
      (r.act t).down = .ending ∧ (r.act t).slot = none := by
  cases t with
  | up =>
    refine ⟨fun x hx => ?_, ?_⟩
    · cases hcarries : x.carriesDown with
      | false => rfl
      | true => exact (Call.isDown_of_carriesDown hcarries).symm.trans (r.upStep.isDown x hx)
    · exact ⟨r.upStep.down_eq.1.trans hdown, r.upStep.down_eq.2.trans hslot⟩
  | down =>
    refine ⟨fun x hx => ?_, r.downStep.down_eq hdown hslot⟩
    simp only [calls, callsDown, hdown, List.mem_singleton] at hx
    subst hx
    rfl
  | closing =>
    refine ⟨fun x hx => ?_, r.closingStep.down_eq hdown hslot⟩
    simp only [calls, callsClosing, hslot, List.mem_singleton] at hx
    subst hx
    rfl

/-- When a relay is not open any more, it hands over what waits and closes the channel. -/
theorem act_of_stage (hstage : r.stage ≠ .open) (hdue : isDue t r.stage = true) :
    (∀ x ∈ r.calls t, (∃ m answer, x = .send m answer) ∨ ∃ answer, x = .close answer) ∧
      (r.act t).stage ≠ .open := by
  have hstage' := stage_of_isDue hdue
  cases t with
  | up => exact absurd hstage' hstage
  | down => exact absurd hstage' hstage
  | closing => exact ⟨r.closingStep.closes, r.closingStep.stage_ne hstage⟩

/-! ### What a call says about its step -/

theorem up_of_shutdown {answer : Poll Unit} (h : r.calls t = [.shutdown answer]) :
    t = .up ∧ r.up = .ending := by
  have hx : .shutdown answer ∈ r.calls t := by rw [h]; exact List.mem_singleton_self _
  cases t with
  | up =>
    refine ⟨rfl, ?_⟩
    simp only [calls, callsUp] at hx
    split at hx <;> simp_all
  | down => cases r.downStep.isDown _ hx
  | closing => cases r.closingStep.isDown _ hx

theorem ending_of_close {answer : Except ChannelError Unit} (h : r.calls t = [.close answer]) :
    (t = .down ∧ r.down = .ending) ∨ t = .closing := by
  have hx : .close answer ∈ r.calls t := by rw [h]; exact List.mem_singleton_self _
  cases t with
  | up => cases r.upStep.isDown _ hx
  | down =>
    refine .inl ⟨rfl, ?_⟩
    have hs := r.downStep
    rw [h] at hs
    generalize r.step .down = s at hs
    cases hs with
    | delivery _ _ hd => cases hd
    | closed hdown | unclosed hdown => exact hdown
  | closing => exact .inr rfl

theorem down_of_read {answer : Poll Bytes} (h : r.calls t = [.read answer]) :
    t = .down ∧ r.down = .reading := by
  have hx : .read answer ∈ r.calls t := by rw [h]; exact List.mem_singleton_self _
  cases t with
  | up => cases r.upStep.isDown _ hx
  | down =>
    refine ⟨rfl, ?_⟩
    have hs := r.downStep
    rw [h] at hs
    generalize r.step .down = s at hs
    cases hs with
    | delivery _ _ hd => cases hd
    | got hdown _ | finished hdown _ | starved hdown _ | failed hdown _ => exact hdown
  | closing => rcases r.closingStep.closes _ hx with ⟨_, _, h⟩ | ⟨_, h⟩ <;> cases h

/-- A remote stream that answers to being shut down is not called any more. -/
theorem UpStep.stage_of_shutdown {answer : Poll Unit} (h : UpStep r [.shutdown answer] s)
    (hne : answer ≠ .pending) : (s.relay .up).stage ≠ .open := by
  cases h with
  | shut _ _ => nofun
  | failed _ _ => nofun
  | stalled _ hst =>
    cases answer with
    | pending => exact absurd rfl hne
    | _ => cases hst

theorem UpStep.up_of_waiting {r' : Relay σ} (h : UpStep r calls (.stop .waiting r')) :
    r'.up = r.up := by
  cases h <;> rfl

theorem UpStep.pending_of_waiting {r' : Relay σ} {answer : Poll Unit}
    (h : UpStep r [.shutdown answer] (.stop .waiting r')) : answer = .pending := by
  cases h with
  | stalled _ hst =>
    cases answer with
    | pending => rfl
    | _ => cases hst

theorem UpStep.stage_of_fault {e : RelayError} (h : UpStep r [x] s) (hf : x.fault? = some e) :
    (s.relay .up).stage = .ended (.error e) := by
  cases h with
  | faulty _ _ hi =>
    cases eq_failure_of_error hi
    cases hf
    rfl
  | failed _ hx => cases (Call.fault_of_failure hx).symm.trans hf; rfl
  | stalled _ hst => cases (Call.fault_of_isStalled hst).symm.trans hf
  | @pulled item _ _ _ _ hi =>
    cases item with
    | failure e => cases hi
    | _ => cases hf
  | _ => cases hf

theorem DownStep.stage_of_fault {e : RelayError} (h : DownStep r [x] s) (hf : x.fault? = some e) :
    (s.relay .down).stage = .ended (.error e) := by
  cases h with
  | failed _ _ | unclosed _ => cases hf; rfl
  | delivery _ _ hd => cases hd <;> cases hf; rfl
  | _ => cases hf

/-- A call that fails ends a relay whose directions are both open. -/
theorem act_of_fault {e : RelayError} (hcall : r.calls t = [x]) (hf : x.fault? = some e) :
    t = .closing ∨ (r.act t).stage = .ended (.error e) := by
  cases t with
  | up =>
    have hs := r.upStep
    rw [hcall] at hs
    exact .inr (hs.stage_of_fault hf)
  | down =>
    have hs := r.downStep
    rw [hcall] at hs
    exact .inr (hs.stage_of_fault hf)
  | closing => exact .inl rfl

theorem DownStep.down_of_finished (h : DownStep r [.read (.ready [])] s) :
    (s.relay .down).down = .ending ∧ (s.relay .down).slot = r.slot := by
  cases h with
  | finished _ _ => exact ⟨rfl, rfl⟩
  | delivery _ _ hd => cases hd

end Relay

namespace Course

open Calls

variable {σ : Type}

theorem ending_start (channel : Channel) (remote : σ) :
    Relay.Ending (start channel remote).relay (start channel remote).calls where
  done := ⟨nofun, fun ⟨item, hitem, _⟩ => by cases hitem⟩
  finished := nofun
  reached := .open (by simp [start])

variable [ByteStream σ] {channel : Channel} {remote : σ} {moves : List (Move σ)}
  {before after : List Call} {x : Call}

theorem ending_run {c : Course σ} (h : Relay.Ending c.relay c.calls) (moves : List (Move σ)) :
    Relay.Ending (c.run moves).relay (c.run moves).calls :=
  run_induction (P := fun c => Relay.Ending c.relay c.calls) (fun h ho hs => h.upStep ho hs)
    (fun h ho hs => h.downStep ho hs) (fun h hc hs => h.closingStep hc hs)
    (fun _ h => ⟨h.done, h.finished, h.reached⟩) h moves

/-- A call with the point of the run at which it is made, and the run from there on. -/
theorem exists_point (h : ((start channel remote).run moves).calls = before ++ x :: after) :
    ∃ (earlier : List (Move σ)) (t : Relay.Task) (later : List (Move σ)),
      ((start channel remote).run earlier).calls = before ∧
        Relay.isDue t ((start channel remote).run earlier).relay.stage = true ∧
        ((start channel remote).run earlier).relay.calls t = [x] ∧
        (start channel remote).run moves =
          run later ⟨before ++ [x], ((start channel remote).run earlier).relay.act t⟩ := by
  obtain ⟨earlier, t, later, rfl, hbefore, hdue, hx⟩ := exists_call h (Nat.zero_le _)
  refine ⟨earlier, t, later, hbefore, hdue, hx, ?_⟩
  rw [run_append, run_cons, go_act hdue, hbefore, hx]

/-- What is called after a call, if the step that makes it leads to a property of relays that all
steps keep. -/
theorem after_of_point {I : Relay σ → Prop} {Q : Call → Prop}
    (hact : ∀ {r : Relay σ} {t : Relay.Task}, I r → Relay.isDue t r.stage = true →
      (∀ x ∈ r.calls t, Q x) ∧ I (r.act t))
    (hchange : ∀ {r : Relay σ} (w : Change σ), I r → I (r.change w))
    {c : Course σ} {r : Relay σ} {later : List (Move σ)} (hI : I r)
    (hc : c = run later ⟨before ++ [x], r⟩) (h : c.calls = before ++ x :: after) :
    (∀ y ∈ after, Q y) ∧ I c.relay := by
  obtain ⟨tail, htail, hQ, hI'⟩ := exists_tail hact hchange (c := ⟨before ++ [x], r⟩) hI later
  rw [← hc] at htail hI'
  rw [h, List.append_assoc, List.singleton_append] at htail
  cases List.append_cancel_left htail
  exact ⟨hQ, hI'⟩

/-! ### Each side in turn -/

/-- The remote stream is shut down when the client is done and has been served. -/
theorem before_shutdown {answer : Poll Unit}
    (h : ((start channel remote).run moves).calls = before ++ .shutdown answer :: after) :
    ClientDone before ∧ Delivered before ∧ (∀ x ∈ after, x.carriesUp = false) ∧
      (answer ≠ .pending → ∀ x ∈ after,
        (∃ m answer, x = .send m answer) ∨ ∃ answer, x = .close answer) := by
  obtain ⟨earlier, t, later, hbefore, hdue, hcall, hrun⟩ := exists_point h
  obtain ⟨rfl, hup⟩ := Relay.up_of_shutdown hcall
  have hending := ending_run (ending_start channel remote) earlier
  have hupstream := (upstream_run (upstream_start channel remote) earlier).carried
  rw [hup] at hupstream
  have hdone := hending.done.1 hup
  rw [hbefore] at hupstream hdone
  -- What comes after is told by two properties that last: the way up has ended, and, once the remote
  -- stream has answered, the relay is not open any more.
  refine ⟨hdone, hupstream, ?_, fun hne => ?_⟩
  · exact (after_of_point (I := fun r => r.up = .ending) (fun hup _ => Relay.act_of_up_ending hup _)
      (fun _ hup => hup) (Relay.act_of_up_ending hup .up).2 hrun h).1
  · have hs := ((start channel remote).run earlier).relay.upStep
    rw [hcall] at hs
    exact (after_of_point (I := fun r => r.stage ≠ .open) Relay.act_of_stage (fun _ hs => hs)
      (hs.stage_of_shutdown hne) hrun h).1

/-- The channel is closed when the remote stream has ended and everything read was passed on, or
when the remote stream was shut down. -/
theorem before_close {answer : Except ChannelError Unit}
    (h : ((start channel remote).run moves).calls = before ++ .close answer :: after) :
    (.read (.ready []) ∈ before ∧ Passed before) ∨ .shutdown (.ready ()) ∈ before := by
  obtain ⟨earlier, t, later, hbefore, hdue, hcall, -⟩ := exists_point h
  have hending := ending_run (ending_start channel remote) earlier
  have hstage := Relay.stage_of_isDue hdue
  rw [← hbefore]
  rcases Relay.ending_of_close hcall with ⟨rfl, hdown⟩ | rfl
  · have hheld := (downstream_run (downstream_start channel remote) earlier).held_of_active
      (Relay.ne_ended_of_open hstage)
    rw [hdown] at hheld
    exact .inl ⟨hending.finished hdown, hheld.passed_of_ending.2⟩
  · have hreached := hending.reached
    rw [hstage] at hreached
    exact .inr hreached.mem_of_closing

/-- When the remote stream has ended, everything read before was passed on, and nothing is read or
handed over any more. -/
theorem around_end
    (h : ((start channel remote).run moves).calls = before ++ .read (.ready []) :: after) :
    Passed before ∧ ∀ x ∈ after, x.carriesDown = false := by
  obtain ⟨earlier, t, later, hbefore, hdue, hcall, hrun⟩ := exists_point h
  obtain ⟨rfl, hdown⟩ := Relay.down_of_read hcall
  have hheld := (downstream_run (downstream_start channel remote) earlier).held_of_active
    (Relay.ne_ended_of_open (Relay.stage_of_isDue hdue))
  rw [hdown] at hheld
  obtain ⟨hslot, hpassed⟩ := hheld.passed_of_reading
  have hs := ((start channel remote).run earlier).relay.downStep
  rw [hcall] at hs
  obtain ⟨hdown', hslot'⟩ := hs.down_of_finished
  refine ⟨hbefore ▸ hpassed, ?_⟩
  -- The slot is empty, too, so closing has nothing to hand over.
  exact (after_of_point (I := fun r => r.down = .ending ∧ r.slot = none)
    (fun hI _ => Relay.act_of_down_ending hI.1 hI.2 _) (fun _ hI => hI)
    ⟨hdown', hslot'.trans hslot⟩ hrun h).1

/-- As long as the remote stream was not shut down, an error is the last thing that happens. -/
theorem after_fault {e : RelayError}
    (h : ((start channel remote).run moves).calls = before ++ x :: after) (hf : x.fault? = some e)
    (hopen : .shutdown (.ready ()) ∉ before) :
    after = [] ∧ ((start channel remote).run moves).relay.stage = .ended (.error e) := by
  obtain ⟨earlier, t, later, hbefore, hdue, hcall, hrun⟩ := exists_point h
  have hended : (((start channel remote).run earlier).relay.act t).stage = .ended (.error e) := by
    rcases Relay.act_of_fault hcall hf with rfl | hended
    · -- A relay that closes has shut the remote stream down before.
      have hreached := (ending_run (ending_start channel remote) earlier).reached
      rw [Relay.stage_of_isDue hdue, hbefore] at hreached
      exact absurd hreached.mem_of_closing hopen
    · exact hended
  obtain ⟨hnone, hstage⟩ := after_of_point (Q := fun _ => False)
    (I := fun r => r.stage = .ended (.error e))
    (fun hI hdue => by rw [hI] at hdue; cases ‹Relay.Task› <;> cases hdue) (fun _ hI => hI)
    hended hrun h
  exact ⟨List.eq_nil_iff_forall_not_mem.2 hnone, hstage⟩

/-! ### The whole -/

/-- When the client is done and the relay rests, it is the remote stream that does not answer to
being shut down. -/
theorem exists_turn_ending {c : Course σ} (h : Relay.Ending c.relay c.calls) :
    ∃ n, (c.run (List.replicate n (.act .up))).relay = c.relay.turn .up ∧
      ((c.relay.turn .up).stage = .open →
        ClientDone (c.run (List.replicate n (.act .up))).calls →
        (c.run (List.replicate n (.act .up))).calls.getLast? = some (.shutdown .pending)) := by
  obtain ⟨n, hrelay, hwait⟩ := exists_turn .up c
  refine ⟨n, hrelay, fun hopen hdone => ?_⟩
  have hup := (ending_run h (List.replicate n (.act .up))).done.2 hdone
  obtain ⟨c', hcalls, hstep⟩ := hwait (by rw [hopen]; rfl)
  have hs := c'.relay.upStep
  rw [hstep] at hs
  rw [hrelay, hs.up_of_waiting] at hup
  have hcall : c'.relay.calls .up = [.shutdown (ByteStream.shutdown c'.relay.remote).1] := by
    simp only [Relay.calls, Relay.callsUp, hup]
  rw [hcall] at hs
  rw [hcalls, hcall, hs.pending_of_waiting]
  exact List.getLast?_concat

/-- When the remote stream was shut down and the relay rests, it is the channel that does not take
the chunk that waits. -/
theorem blocked_of_turn_closing {c : Course σ} (h : (c.relay.turn .closing).stage = .closing) :
    (c.relay.turn .closing).slot.isSome = true ∧
      (c.relay.turn .closing).channel.blocked = true := by
  obtain ⟨n, -, hwait⟩ := exists_turn .closing c
  obtain ⟨c', -, hstep⟩ := hwait (by rw [h]; rfl)
  have hs := c'.relay.closingStep
  rw [hstep] at hs
  generalize c.relay.turn .closing = r at hs
  generalize c'.relay.calls .closing = calls at hs
  cases hs with
  | delivery hslot hd =>
    cases hd with
    | blocked hb => exact ⟨by rw [hslot]; rfl, hb⟩

/-- Whatever arrives, however both sides answer and in whichever order the directions take their
turns, a relay closes each side once, and only when it owes that side nothing. Closing the channel
is the last call of all, and so is one that fails before the remote stream was shut down. A relay
goes on until one of the sides does not answer. -/
theorem closes_once_settled (channel : Channel) (remote : σ) (moves : List (Move σ)) :
    let c := (start channel remote).run moves
    (∀ before answer after, c.calls = before ++ .shutdown answer :: after →
        ClientDone before ∧ Delivered before ∧ taken before = (payloads before).flatten ∧
          (∀ x ∈ after, x.carriesUp = false) ∧
          (answer ≠ .pending → ∀ x ∈ after,
            (∃ m answer, x = .send m answer) ∨ ∃ answer, x = .close answer)) ∧
      (∀ before answer after, c.calls = before ++ .close answer :: after →
        after = [] ∧ (chunks before).map .binary = handed before ∧
          ((.read (.ready []) ∈ before ∧ Passed before) ∨ .shutdown (.ready ()) ∈ before)) ∧
      (∀ before after, c.calls = before ++ .read (.ready []) :: after →
        Passed before ∧ ∀ x ∈ after, x.carriesDown = false) ∧
      (∀ up down, c.relay.stage = .ended (.ok ⟨.inbound, up, down⟩) →
        .shutdown (.ready ()) ∈ c.calls ∧ ClosesLast c.calls) ∧
      (.shutdown (.ready ()) ∈ c.calls →
        c.relay.stage = .closing ∨ ∃ up, c.relay.stage = .ended (.ok ⟨.inbound, up, 0⟩)) ∧
      (∀ up down, c.relay.stage = .ended (.ok ⟨.outbound, up, down⟩) →
        ∃ before, c.calls = before ++ [.close (.ok ())] ∧ .read (.ready []) ∈ before) ∧
      (∀ before x after e, c.calls = before ++ x :: after → x.fault? = some e →
        .shutdown (.ready ()) ∉ before → after = [] ∧ c.relay.stage = .ended (.error e)) ∧
      (∀ e, c.relay.stage = .ended (.error e) →
        ∃ before x, c.calls = before ++ [x] ∧ x.fault? = some e ∧
          .shutdown (.ready ()) ∉ before) ∧
      (∀ order : List Relay.Task, ∃ tasks : List Relay.Task,
        (c.run (tasks.map .act)).relay = order.foldl (fun r t => r.turn t) c.relay) ∧
      (∃ n, (c.run (List.replicate n (.act .up))).relay = c.relay.turn .up ∧
        ((c.relay.turn .up).stage = .open →
          ClientDone (c.run (List.replicate n (.act .up))).calls →
          (c.run (List.replicate n (.act .up))).calls.getLast? = some (.shutdown .pending))) ∧
      ((c.relay.turn .closing).stage = .closing →
        (c.relay.turn .closing).slot.isSome = true ∧
          (c.relay.turn .closing).channel.blocked = true) ∧
      (c.relay.channel.isClosed = true ↔
        channel.isClosed = true ∨ .close (.ok ()) ∈ c.calls) := by
  intro c
  have hending : Relay.Ending c.relay c.calls := ending_run (ending_start channel remote) moves
  have hreached := hending.reached
  have hdownstream : Relay.Downstream c.relay c.calls :=
    downstream_run (downstream_start channel remote) moves
  refine ⟨fun before answer after h => ?_, fun before answer after h => ?_,
    fun before after h => around_end h, fun up down h => ?_, fun h => ?_, fun up down h => ?_,
    fun before x after e h hf hopen => after_fault h hf hopen, fun e h => ?_,
    fun order => exists_turns order c, exists_turn_ending hending, blocked_of_turn_closing,
    (channel_run channel remote moves).2.2⟩
  · obtain ⟨hdone, hdelivered, hup, hrest⟩ := before_shutdown h
    exact ⟨hdone, hdelivered, hdelivered.taken_eq, hup, hrest⟩
  · exact ⟨(hdownstream.closed h).1, (hdownstream.closed h).2.1, before_close h⟩
  · rw [h] at hreached
    cases hreached with
    | inbound hshut hlast => exact ⟨hshut, hlast⟩
  · generalize c.relay.stage = stage, c.calls = calls at hreached h
    cases hreached with
    | «open» hnot => exact absurd h hnot
    | closing _ => exact .inl rfl
    | inbound _ _ => exact .inr ⟨_, rfl⟩
    | outbound hnot _ => exact absurd h (not_mem_concat hnot nofun)
    | failed hnot hf => exact absurd h (not_mem_concat hnot (Call.ne_shutdown_of_fault hf))
  · rw [h] at hreached
    generalize c.calls = calls at hreached
    cases hreached with
    | outbound _ hread => exact ⟨_, rfl, hread⟩
  · rw [h] at hreached
    generalize c.calls = calls at hreached
    cases hreached with
    | failed hnot hf => exact ⟨_, _, rfl, hf, hnot⟩

end Course

end Switchyard
