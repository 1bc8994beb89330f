import Switchyard.Proofs.Session.Steps

/-!
# The course of a relay

A relay goes step by step, in an order that its two directions do not agree on, while the world
around changes. `Course` is the relay with the record of its calls, and a list of moves takes it on:
a step of one task, or a change. Every `Relay.poll` is a series of such steps (`exists_poll`), so
that what holds after all moves holds at every point of every run, whichever direction goes first.
-/

namespace Switchyard

/-! ### Courses -/

/-- A relay with the record of its calls. -/
structure Course (σ : Type) where
  calls : List Call
  relay : Relay σ

/-- A step of a task, if it is due, or a change of the world around. -/
inductive Move (σ : Type) where
  | act (t : Relay.Task)
  | change (w : Change σ)

/-- The items that arrive with a move. -/
def Move.arrivals {σ : Type} : Move σ → List Item
  | act _ => []
  | change w => w.arrivals

namespace Course

variable {σ : Type} [ByteStream σ]

omit [ByteStream σ] in
/-- The course of a relay that has not begun. -/
def start (channel : Channel) (remote : σ) : Course σ :=
  ⟨[], .start channel remote⟩

def go (m : Move σ) (c : Course σ) : Course σ :=
  match m with
  | .act t =>
    if Relay.isDue t c.relay.stage then ⟨c.calls ++ c.relay.calls t, c.relay.act t⟩ else c
  | .change w => { c with relay := c.relay.change w }

def run (moves : List (Move σ)) (c : Course σ) : Course σ :=
  moves.foldl (fun c m => c.go m) c

@[simp] theorem run_nil (c : Course σ) : c.run [] = c := rfl

@[simp] theorem run_cons (m : Move σ) (moves : List (Move σ)) (c : Course σ) :
    c.run (m :: moves) = (c.go m).run moves := rfl

theorem run_append (ms ms' : List (Move σ)) (c : Course σ) :
    c.run (ms ++ ms') = (c.run ms).run ms' := List.foldl_append

/-- All that a move can do to a course. -/
theorem go_cases {P : Course σ → Prop} (m : Move σ) (c : Course σ)
    (hup : ∀ {calls s}, m = .act .up → c.relay.stage = .open → Relay.UpStep c.relay calls s →
      P ⟨c.calls ++ calls, s.relay .up⟩)
    (hdown : ∀ {calls s}, m = .act .down → c.relay.stage = .open → Relay.DownStep c.relay calls s →
      P ⟨c.calls ++ calls, s.relay .down⟩)
    (hclosing : ∀ {calls s}, m = .act .closing → c.relay.stage = .closing →
      Relay.ClosingStep c.relay calls s → P ⟨c.calls ++ calls, s.relay .closing⟩)
    (hchange : ∀ w, m = .change w → P { c with relay := c.relay.change w })
    (hidle : ∀ t, m = .act t → P c) : P (c.go m) := by
  unfold go
  cases m with
  | change w => exact hchange w rfl
  | act t =>
    dsimp only
    split
    · next hdue =>
      have hstage := Relay.stage_of_isDue hdue
      cases t with
      | up => exact hup rfl hstage c.relay.upStep
      | down => exact hdown rfl hstage c.relay.downStep
      | closing => exact hclosing rfl hstage c.relay.closingStep
    · exact hidle t rfl

/-- What a property of courses needs to hold all along a run: each step of each task keeps it, and
so does the world. -/
theorem run_induction {P : Course σ → Prop}
    (hup : ∀ {c calls s}, P c → c.relay.stage = .open → Relay.UpStep c.relay calls s →
      P ⟨c.calls ++ calls, s.relay .up⟩)
    (hdown : ∀ {c calls s}, P c → c.relay.stage = .open → Relay.DownStep c.relay calls s →
      P ⟨c.calls ++ calls, s.relay .down⟩)
    (hclosing : ∀ {c calls s}, P c → c.relay.stage = .closing → Relay.ClosingStep c.relay calls s →
      P ⟨c.calls ++ calls, s.relay .closing⟩)
    (hchange : ∀ {c} (w : Change σ), P c → P { c with relay := c.relay.change w })
    {c : Course σ} (h : P c) (moves : List (Move σ)) : P (c.run moves) := by
  induction moves generalizing c with
  | nil => exact h
  | cons m moves ih =>
    exact ih (go_cases m c (fun _ => hup h) (fun _ => hdown h) (fun _ => hclosing h)
      (fun w _ => hchange w h) (fun _ _ => h))

theorem go_act {t : Relay.Task} {c : Course σ} (hdue : Relay.isDue t c.relay.stage = true) :
    c.go (.act t) = ⟨c.calls ++ c.relay.calls t, c.relay.act t⟩ := if_pos hdue

/-! ### Points of a run -/

/-- What a run adds to the record: each step that starts from states with a property, and keeps
that, makes calls with another one. -/
theorem exists_tail {I : Relay σ → Prop} {Q : Call → Prop}
    (hact : ∀ {r : Relay σ} {t : Relay.Task}, I r → Relay.isDue t r.stage = true →
      (∀ x ∈ r.calls t, Q x) ∧ I (r.act t))
    (hchange : ∀ {r : Relay σ} (w : Change σ), I r → I (r.change w))
    {c : Course σ} (h : I c.relay) (moves : List (Move σ)) :
    ∃ tail, (c.run moves).calls = c.calls ++ tail ∧ (∀ x ∈ tail, Q x) ∧ I (c.run moves).relay := by
  induction moves generalizing c with
  | nil => exact ⟨[], (List.append_nil _).symm, nofun, h⟩
  | cons m moves ih =>
    obtain ⟨added, hcalls, hadded, hI⟩ : ∃ added, (c.go m).calls = c.calls ++ added ∧
        (∀ x ∈ added, Q x) ∧ I (c.go m).relay := by
      cases m with
      | change w => exact ⟨[], (List.append_nil _).symm, nofun, hchange w h⟩
      | act t =>
        by_cases hdue : Relay.isDue t c.relay.stage = true
        · rw [go_act hdue]
          exact ⟨_, rfl, hact h hdue⟩
        · exact ⟨[], by simp [go, hdue], nofun, by simpa [go, hdue] using h⟩
    obtain ⟨tail, htail, hQ, hI'⟩ := ih hI
    refine ⟨added ++ tail, by rw [run_cons, htail, hcalls, List.append_assoc], fun x hx => ?_, hI'⟩
    exact (List.mem_append.1 hx).elim (hadded x) (hQ x)

/-- Every call of a run is made at a point of it, by a step that is due there. -/
theorem exists_call {c : Course σ} {moves : List (Move σ)} {before after : List Call} {x : Call}
    (h : (c.run moves).calls = before ++ x :: after) (hlen : c.calls.length ≤ before.length) :
    ∃ earlier t later, moves = earlier ++ .act t :: later ∧ (c.run earlier).calls = before ∧
      Relay.isDue t (c.run earlier).relay.stage = true ∧ (c.run earlier).relay.calls t = [x] := by
  induction moves generalizing c with
  | nil =>
    have hlt := congrArg List.length h
    simp only [run_nil, List.length_append, List.length_cons] at hlt
    omega
  | cons m moves ih =>
    obtain ⟨tail, htail, -, -⟩ := exists_tail (I := fun _ => True) (Q := fun _ => True)
      (fun _ _ => ⟨fun _ _ => trivial, trivial⟩) (fun _ _ => trivial) trivial
      (c := c.go m) moves
    by_cases hle : (c.go m).calls.length ≤ before.length
    · obtain ⟨earlier, t, later, rfl, hrest⟩ := ih h hle
      exact ⟨m :: earlier, t, later, rfl, hrest⟩
    · -- The move itself makes the call.
      rw [run_cons, htail] at h
      cases m with
      | change w => exact absurd hlen hle
      | act t =>
        by_cases hdue : Relay.isDue t c.relay.stage = true
        · rw [go_act hdue] at h hle
          rcases c.relay.calls_eq t with hnone | ⟨y, hy⟩
          · rw [hnone, List.append_nil] at hle
            exact absurd hlen hle
          · rw [hy] at h hle
            rw [List.length_append, List.length_singleton] at hle
            rw [List.append_assoc] at h
            obtain ⟨h₁, h₂⟩ := List.append_inj h (by omega)
            cases h₂
            exact ⟨[], t, moves, rfl, h₁, hdue, hy⟩
        · rw [show c.go (.act t) = c by simp [go, hdue]] at hle
          exact absurd hlen hle

/-! ### What the record agrees with -/

open Calls

/-- What was pulled and what waits to be pulled is what was there before and what has arrived. -/
theorem items_go (m : Move σ) (c : Course σ) :
    pulls (c.go m).calls ++ (c.go m).relay.channel.items =
      pulls c.calls ++ c.relay.channel.items ++ m.arrivals := by
  have hact {t : Relay.Task} {calls : List Call} {r : Relay σ} (hm : m = .act t)
      (htr : Relay.Traced c.relay.channel calls r.channel) :
      pulls (c.calls ++ calls) ++ r.channel.items =
        pulls c.calls ++ c.relay.channel.items ++ m.arrivals := by
    subst hm
    rw [pulls_append, List.append_assoc, ← htr.items, Move.arrivals, List.append_nil]
  refine go_cases (P := fun c' => pulls c'.calls ++ c'.relay.channel.items = _) m c
    (fun hm _ h => hact hm h.traced) (fun hm _ h => hact hm h.traced)
    (fun hm _ h => hact hm h.traced) ?_ ?_
  · rintro w rfl
    exact (List.append_assoc _ _ _).symm
  · rintro t rfl
    exact (List.append_nil _).symm

/-- Items are pulled in the order of their arrival. -/
theorem items_run (moves : List (Move σ)) (c : Course σ) :
    pulls (c.run moves).calls ++ (c.run moves).relay.channel.items =
      pulls c.calls ++ c.relay.channel.items ++ moves.flatMap Move.arrivals := by
  induction moves generalizing c with
  | nil => exact (List.append_nil _).symm
  | cons m moves ih =>
    rw [run_cons, ih, items_go, List.append_assoc _ m.arrivals, List.flatMap_cons]

/-- The channel has counted the items that were pulled, holds the messages that were handed over,
and is closed if it said so. -/
theorem channel_run (channel : Channel) (remote : σ) (moves : List (Move σ)) :
    let c := (start channel remote).run moves
    c.relay.channel.pulled = channel.pulled + (pulls c.calls).length ∧
      c.relay.channel.sent = (handed c.calls).reverse ++ channel.sent ∧
      (c.relay.channel.isClosed = true ↔
        channel.isClosed = true ∨ .close (.ok ()) ∈ c.calls) := by
  let P (c : Course σ) : Prop :=
    c.relay.channel.pulled = channel.pulled + (pulls c.calls).length ∧
      c.relay.channel.sent = (handed c.calls).reverse ++ channel.sent ∧
      (c.relay.channel.isClosed = true ↔ channel.isClosed = true ∨ .close (.ok ()) ∈ c.calls)
  have hact {c : Course σ} {calls : List Call} {r : Relay σ} (h : P c)
      (htr : Relay.Traced c.relay.channel calls r.channel) : P ⟨c.calls ++ calls, r⟩ := by
    obtain ⟨hpulled, hsent, hclosed⟩ := h
    refine ⟨?_, ?_, ?_⟩
    · rw [htr.pulled, hpulled, pulls_append, List.length_append, Nat.add_assoc]
    · rw [htr.sent, hsent, handed_append, List.reverse_append, List.append_assoc]
    · rw [htr.closed, hclosed, List.mem_append, or_assoc]
  exact run_induction (P := P) (fun h _ hs => hact h hs.traced) (fun h _ hs => hact h hs.traced)
    (fun h _ hs => hact h hs.traced) (fun _ h => h) ⟨rfl, rfl, by simp [start, Relay.start]⟩ moves

/-- What every call of a remote stream keeps, and every change of it, holds after a run. -/
theorem remote_run {I : List Call → σ → Prop}
    (hcall : ∀ {calls s x s'}, I calls s → Relay.Answered s x s' → I (calls ++ [x]) s')
    (hsilent : ∀ {calls calls' s}, I calls s → taken calls' = [] → chunks calls' = [] →
      I (calls ++ calls') s)
    {moves : List (Move σ)}
    (hchange : ∀ w, .change w ∈ moves → ∀ {calls s}, I calls s → I calls (w.remote s))
    {c : Course σ} (h : I c.calls c.relay.remote) :
    I (c.run moves).calls (c.run moves).relay.remote := by
  induction moves generalizing c with
  | nil => exact h
  | cons m moves ih =>
    refine ih (fun w hw => hchange w (List.mem_cons_of_mem _ hw)) ?_
    have hact {calls : List Call} {r : Relay σ}
        (ha : Relay.Asked c.relay.remote calls r.remote) : I (c.calls ++ calls) r.remote := by
      generalize r.remote = s' at ha
      cases ha with
      | none ht hc => exact hsilent h ht hc
      | one hx => exact hcall h hx
    exact go_cases (P := fun c' => I c'.calls c'.relay.remote) m c (fun _ _ hs => hact hs.asked)
      (fun _ _ hs => hact hs.asked) (fun _ _ hs => hact hs.asked)
      (fun w hw => hchange w (hw ▸ List.mem_cons_self) h) (fun _ _ => h)

/-- A view of a remote stream shows the bytes that its writes have taken. -/
def Shows (seen : σ → Bytes) : Prop :=
  ∀ {s s' : σ} {x : Call}, Relay.Answered s x s' → seen s' = seen s ++ x.taken

theorem seen_run {seen : σ → Bytes} (hseen : Shows seen) {moves : List (Move σ)}
    (hm : ∀ w, .change w ∈ moves → ∀ s, seen (w.remote s) = seen s) (channel : Channel)
    (remote : σ) :
    seen ((start channel remote).run moves).relay.remote =
      seen remote ++ taken ((start channel remote).run moves).calls := by
  refine remote_run (I := fun calls s => seen s = seen remote ++ taken calls)
    (fun {calls s x s'} h hx => ?_) (fun {calls calls' s} h ht _ => ?_)
    (fun w hw {calls s} h => (hm w hw s).trans h) (List.append_nil _).symm
  · rw [hseen hx, h, taken_append, List.append_assoc, taken_cons, taken_nil, List.append_nil]
  · rw [h, taken_append, ht, List.append_nil]

/-- A view of a remote stream shows the bytes that are to be read from it. -/
def Feeds (unread : σ → Bytes) : Prop :=
  ∀ {s s' : σ} {x : Call}, Relay.Answered s x s' → unread s = x.chunk?.getD [] ++ unread s'

theorem unread_run {unread : σ → Bytes} (hunread : Feeds unread) {moves : List (Move σ)}
    (hm : ∀ w, .change w ∈ moves → ∀ s, unread (w.remote s) = unread s) (channel : Channel)
    (remote : σ) :
    unread remote = (chunks ((start channel remote).run moves).calls).flatten ++
      unread ((start channel remote).run moves).relay.remote := by
  refine remote_run (I := fun calls s => unread remote = (chunks calls).flatten ++ unread s)
    (fun {calls s x s'} h hx => ?_) (fun {calls calls' s} h _ hc => ?_)
    (fun w hw {calls s} h => h.trans (by rw [hm w hw s])) rfl
  · rw [h, hunread hx, chunks_append, chunks_cons, List.flatten_append, List.append_assoc]
    cases x.chunk? <;> simp
  · rw [h, chunks_append, hc, List.append_nil]

/-! ### Polls are runs -/

/-- Going on until a step stops is a number of steps and that one. -/
theorem exists_go (t : Relay.Task) (c : Course σ) (hdue : Relay.isDue t c.relay.stage = true) :
    ∃ n, Relay.isDue t (c.run (List.replicate n (.act t))).relay.stage = true ∧
      (c.run (List.replicate n (.act t))).relay.step t =
        .stop (c.relay.go t).1 (c.relay.go t).2 := by
  generalize hr : c.relay = r
  fun_induction Relay.go t r generalizing c with
  | case1 r p r' h => exact ⟨0, hdue, by rw [List.replicate_zero, run_nil, hr, h]⟩
  | case2 r r' h ih =>
    have hgo : (c.go (.act t)).relay = r' := by rw [go_act hdue, Relay.act, hr, h, Relay.Step.relay]
    have hdue' : Relay.isDue t (c.go (.act t)).relay.stage = true := by
      rwa [hgo, Relay.stage_of_next h, ← hr]
    obtain ⟨n, hn⟩ := ih (c.go (.act t)) hdue' hgo
    exact ⟨n + 1, by simpa only [List.replicate_succ, run_cons] using hn⟩

/-- A turn is a number of steps, the last of which has to wait if the task is due still. -/
theorem exists_turn (t : Relay.Task) (c : Course σ) :
    ∃ n, (c.run (List.replicate n (.act t))).relay = c.relay.turn t ∧
      (Relay.isDue t (c.relay.turn t).stage = true →
        ∃ c' : Course σ, (c.run (List.replicate n (.act t))).calls = c'.calls ++ c'.relay.calls t ∧
          c'.relay.step t = .stop .waiting (c.relay.turn t)) := by
  unfold Relay.turn
  split
  · next hdue =>
    obtain ⟨n, hdue', hn⟩ := exists_go t c hdue
    generalize c.relay.go t = stopped at hn ⊢
    obtain ⟨p, r⟩ := stopped
    have hrun : c.run (List.replicate (n + 1) (.act t)) =
        (c.run (List.replicate n (.act t))).go (.act t) := by
      rw [List.replicate_succ', run_append, run_cons, run_nil]
    refine ⟨n + 1, ?_⟩
    rw [hrun, go_act hdue', Relay.act, hn]
    refine ⟨rfl, fun h => ⟨_, rfl, ?_⟩⟩
    -- Only a task that has to wait is due after it has stopped.
    cases p with
    | waiting => exact hn
    | done => cases t <;> cases h
    | failed e => cases t <;> cases h
  · next hdue => exact ⟨0, rfl, fun h => absurd h hdue⟩

/-- Turns in any order are a series of steps. -/
theorem exists_turns (order : List Relay.Task) (c : Course σ) :
    ∃ tasks : List Relay.Task, (c.run (tasks.map .act)).relay =
      order.foldl (fun r t => r.turn t) c.relay := by
  induction order generalizing c with
  | nil => exact ⟨[], rfl⟩
  | cons t order ih =>
    obtain ⟨n, hn, -⟩ := exists_turn t c
    obtain ⟨tasks, htasks⟩ := ih (c.run (List.replicate n (.act t)))
    refine ⟨List.replicate n t ++ tasks, ?_⟩
    rw [List.map_append, List.map_replicate, run_append, htasks, hn, List.foldl_cons]

/-- A poll is a series of steps. -/
theorem exists_poll (c : Course σ) :
    ∃ tasks : List Relay.Task, (c.run (tasks.map .act)).relay = c.relay.poll := by
  obtain ⟨n₁, h₁, -⟩ := exists_turn .up c
  obtain ⟨n₂, h₂, -⟩ := exists_turn .down (c.run (List.replicate n₁ (.act .up)))
  obtain ⟨n₃, h₃, -⟩ := exists_turn .closing
    ((c.run (List.replicate n₁ (.act .up))).run (List.replicate n₂ (.act .down)))
  refine ⟨List.replicate n₁ .up ++ List.replicate n₂ .down ++ List.replicate n₃ .closing, ?_⟩
  rw [List.map_append, List.map_append, List.map_replicate, List.map_replicate, List.map_replicate,
    run_append, run_append, h₃, h₂, h₁, Relay.poll]

end Course

namespace Script

theorem written_read (n : Nat) (s : Script) : (s.read n).2.written = s.written := by
  unfold read
  repeat' split
  all_goals rfl

theorem written_write {bs : Bytes} {s s' : Script} {answer : Poll Nat}
    (h : s.write bs = (answer, s')) : s'.written = s.written ++ (Call.write bs answer).taken := by
  unfold write at h
  repeat' split at h
  all_goals cases h
  all_goals simp [written, Call.taken]

theorem written_flush (s : Script) : s.flush.2.written = s.written := by
  unfold flush
  repeat' split
  all_goals rfl

theorem written_shutdown (s : Script) : s.shutdown.2.written = s.written := by
  unfold shutdown
  repeat' split
  all_goals rfl

/-- What was written to a script is what its writes have taken. -/
theorem shows_written : Course.Shows written := by
  intro s s' x h
  have hsilent {α : Type} {answer : Poll α} {called : Poll α × Script}
      (hcalled : called = (answer, s')) (hw : called.2.written = s.written) :
      s'.written = s.written ++ [] := by
    rwa [hcalled, ← List.append_nil s.written] at hw
  cases h with
  | read hr => exact hsilent hr (written_read _ s)
  | write hw => exact written_write hw
  | flush hf => exact hsilent hf (written_flush s)
  | shutdown hs => exact hsilent hs (written_shutdown s)

/-- What waits to be read. -/
def unread (s : Script) : Bytes :=
  s.chunks.flatten

theorem unread_read {n : Nat} {s s' : Script} {answer : Poll Bytes} (h : s.read n = (answer, s')) :
    s.unread = (Call.read answer).chunk?.getD [] ++ s'.unread := by
  unfold read at h
  split at h
  · next chunk chunks hc =>
    cases h
    have hbytes : (Call.read (.ready (chunk.take n))).chunk?.getD [] = chunk.take n := by
      cases chunk.take n <;> rfl
    rw [hbytes, unread, unread, hc]
    have hsplit := List.take_append_drop n chunk
    split
    · next hrest =>
      rw [hrest, List.append_nil] at hsplit
      rw [hsplit, List.flatten_cons]
    · rw [List.flatten_cons, List.flatten_cons, ← List.append_assoc, hsplit]
  · repeat' split at h
    all_goals
      cases h
      rfl

theorem unread_write (bs : Bytes) (s : Script) : (s.write bs).2.unread = s.unread := by
  rw [unread, unread, chunks_write]

theorem unread_flush (s : Script) : s.flush.2.unread = s.unread := by
  unfold flush
  repeat' split
  all_goals rfl

theorem unread_shutdown (s : Script) : s.shutdown.2.unread = s.unread := by
  unfold shutdown
  repeat' split
  all_goals rfl

/-- What a script gives to reads is what was waiting there. -/
theorem feeds_unread : Course.Feeds unread := by
  intro s s' x h
  cases h with
  | read hr => exact unread_read hr
  | write hw => exact (unread_write _ s).symm.trans (congrArg (fun called => called.2.unread) hw)
  | flush hf => exact (unread_flush s).symm.trans (congrArg (fun called => called.2.unread) hf)
  | shutdown hs =>
    exact (unread_shutdown s).symm.trans (congrArg (fun called => called.2.unread) hs)

end Script

end Switchyard
