import Switchyard.Proofs.Session.Course

/-!
# The accounts of a relay

What a relay has carried is entered in a ledger, call by call: a message counts when the remote
stream has taken all of it and has flushed it, a chunk when the channel was given it and has passed
it on. The counts of a relay are the totals of its ledger, in words of 64 bits, at every point of
every run (`Booked`). At its end it tells the total of the direction that was done first, and nothing
of the other one.
-/

namespace Switchyard

/-- What has been carried whole, and what is under way. -/
structure Ledger where
  /-- Payloads that the remote stream has taken and flushed. -/
  written : List Bytes
  /-- The payload that is being written, and what is left of it. -/
  writing : Option (Bytes × Bytes)
  /-- Chunks that the channel was given and has passed on. -/
  sent : List Bytes
  /-- The chunk that the channel has yet to pass on. -/
  sending : Option Bytes

namespace Ledger

def empty : Ledger := ⟨[], none, [], none⟩

def enter (l : Ledger) : Call → Ledger
  | .pull (.message (.binary bs)) => { l with writing := some (bs, bs) }
  | .write _ (.ready n) => { l with writing := l.writing.map fun (bs, rest) => (bs, rest.drop n) }
  | .flush (.ready ()) =>
    match l.writing with
    | some (bs, []) => { l with written := l.written ++ [bs], writing := none }
    | _ => l
  | .send (.binary bs) (.ok ()) => { l with sending := some bs }
  | .settle =>
    match l.sending with
    | some bs => { l with sent := l.sent ++ [bs], sending := none }
    | none => l
  | _ => l

def ofCalls (calls : List Call) : Ledger :=
  calls.foldl enter empty

/-- The bytes that were carried whole to the remote stream. -/
def up (l : Ledger) : Nat :=
  l.written.flatten.length

/-- The bytes that were carried whole to the client. -/
def down (l : Ledger) : Nat :=
  l.sent.flatten.length

@[simp] theorem ofCalls_append_nil (calls : List Call) :
    ofCalls (calls ++ []) = ofCalls calls := by
  rw [List.append_nil]

@[simp] theorem ofCalls_concat (calls : List Call) (x : Call) :
    ofCalls (calls ++ [x]) = (ofCalls calls).enter x := by
  rw [ofCalls, List.foldl_append]
  rfl

variable (l : Ledger) {x : Call}

theorem enter_of_isStalled (h : x.isStalled = true) : l.enter x = l := by
  unfold Call.isStalled at h
  split at h <;> first | rfl | cases h

/-- A write that takes nothing fails, and leaves as much as before. -/
theorem enter_of_failure {e : StreamError} (h : x.failure? = some e) : l.enter x = l := by
  unfold Call.failure? at h
  split at h
  case h_2 => obtain ⟨written, _ | _, sent, sending⟩ := l <;> rfl
  all_goals first | rfl | cases h

/-- The calls of each direction are entered on its own side. -/
theorem enter_of_not_isDown (h : x.isDown = false) :
    (l.enter x).sent = l.sent ∧ (l.enter x).sending = l.sending := by
  unfold enter
  split
  case h_3 => split <;> exact ⟨rfl, rfl⟩
  all_goals first | exact ⟨rfl, rfl⟩ | cases h

theorem enter_of_isDown (h : x.isDown = true) :
    (l.enter x).written = l.written ∧ (l.enter x).writing = l.writing := by
  unfold enter
  split
  case h_5 => split <;> exact ⟨rfl, rfl⟩
  all_goals first | exact ⟨rfl, rfl⟩ | cases h

/-- A message counts when it is flushed, and not before. -/
theorem up_enter (h : x ≠ .flush (.ready ())) : (l.enter x).up = l.up := by
  unfold enter
  split
  case h_3 => exact absurd rfl h
  case h_5 => split <;> rfl
  all_goals rfl

theorem down_enter (h : x ≠ .settle) : (l.enter x).down = l.down := by
  unfold enter
  split
  case h_5 => exact absurd rfl h
  case h_3 => split <;> rfl
  all_goals rfl

theorem enter_flush {bs : Bytes} (h : l.writing = some (bs, [])) :
    l.enter (.flush (.ready ())) = { l with written := l.written ++ [bs], writing := none } := by
  rw [enter, h]

theorem enter_settle {bs : Bytes} (h : l.sending = some bs) :
    l.enter .settle = { l with sent := l.sent ++ [bs], sending := none } := by
  rw [enter, h]

end Ledger

namespace Relay

/-- What is being written, phase by phase. -/
def BookedUp : UpPhase → Option (Bytes × Bytes) → Prop
  | .pulling, writing => writing = none
  | .writing rest size, writing => ∃ bs, writing = some (bs, rest) ∧ size = bs.length
  | .flushing size, writing => ∃ bs, writing = some (bs, []) ∧ size = bs.length
  | .ending, writing => writing = none

/-- The chunk that is being sent is in the slot, or the channel has yet to pass it on. -/
def BookedDown (slot : Option Bytes) : DownPhase → Option Bytes → Prop
  | .reading, sending => slot = none ∧ sending = none
  | .sending size, sending => ∃ chunk, size = chunk.length ∧
      (slot = some chunk ∧ sending = none ∨ slot = none ∧ sending = some chunk)
  | .ending, sending => slot = none ∧ sending = none

/-- The chunk in the slot is given to the channel. -/
theorem BookedDown.give {chunk : Bytes} {down : DownPhase} {sending : Option Bytes}
    (h : BookedDown (some chunk) down sending) : BookedDown none down (some chunk) := by
  cases down with
  | reading => cases h.1
  | ending => cases h.1
  | sending size =>
    obtain ⟨_, hsize, ⟨⟨⟩, -⟩ | ⟨⟨⟩, -⟩⟩ := h
    exact ⟨chunk, hsize, .inr ⟨rfl, rfl⟩⟩

/-- The invariant between a relay and its ledger. -/
structure Booked {σ : Type} (r : Relay σ) (l : Ledger) : Prop where
  writing : BookedUp r.up l.writing
  /-- A chunk that the channel refuses is gone, but then the relay has ended. -/
  sending : (∀ result, r.stage ≠ .ended result) → BookedDown r.slot r.down l.sending
  upCount : r.upCount = .ofNat l.up
  downCount : r.downCount = .ofNat l.down
  told {closing : Closing} : r.stage = .ended (.ok closing) →
    closing = ⟨.inbound, .ofNat l.up, 0⟩ ∨ closing = ⟨.outbound, 0, .ofNat l.down⟩

namespace Booked

variable {σ : Type} {r r' : Relay σ} {l : Ledger} {x : Call}

theorem start (channel : Channel) (remote : σ) : Booked (Relay.start channel remote) .empty :=
  ⟨rfl, fun _ => ⟨rfl, rfl⟩, rfl, rfl, nofun⟩

/-- What a call to the remote stream has to keep. -/
theorem upward (h : Booked r l) (hopen : r.stage = .open) (hx : x.isDown = false)
    (hkept : r'.slot = r.slot ∧ r'.down = r.down ∧ r'.downCount = r.downCount)
    (hstage : ∀ closing, r'.stage ≠ .ended (.ok closing))
    (hwriting : BookedUp r'.up (l.enter x).writing) (hcount : r'.upCount = .ofNat (l.enter x).up) :
    Booked r' (l.enter x) := by
  obtain ⟨hsent, hsending⟩ := l.enter_of_not_isDown hx
  obtain ⟨hslot, hdown, hdownCount⟩ := hkept
  refine ⟨hwriting, fun _ => ?_, hcount, ?_, fun hended => absurd hended (hstage _)⟩
  · rw [hslot, hdown, hsending]
    exact h.sending (by simp [hopen])
  · rw [hdownCount, h.downCount, Ledger.down, Ledger.down, hsent]

/-- What a call to the channel has to keep. -/
theorem downward (h : Booked r l) (hx : x.isDown = true)
    (hkept : r'.up = r.up ∧ r'.upCount = r.upCount)
    (hsending : (∀ result, r'.stage ≠ .ended result) →
      BookedDown r'.slot r'.down (l.enter x).sending)
    (hcount : r'.downCount = .ofNat (l.enter x).down)
    (htold : ∀ closing, r'.stage = .ended (.ok closing) →
      closing = ⟨.inbound, r.upCount, 0⟩ ∨ closing = ⟨.outbound, 0, r'.downCount⟩) :
    Booked r' (l.enter x) := by
  obtain ⟨hwritten, hwriting⟩ := l.enter_of_isDown hx
  obtain ⟨hup, hupCount⟩ := hkept
  have htotal : r.upCount = .ofNat (l.enter x).up := by
    rw [h.upCount, Ledger.up, Ledger.up, hwritten]
  refine ⟨?_, hsending, hupCount.trans htotal, hcount, fun hended => ?_⟩
  · rw [hup, hwriting]
    exact h.writing
  · rw [← htotal, ← hcount]
    exact htold _ hended

/-- Handing over a chunk. One that is refused leaves the slot, and ends the relay. -/
theorem delivery {chunk : Bytes} {calls calls' : List Call} {s : Step σ} {t : Task}
    (h : Booked r (.ofCalls calls)) (hdue : isDue t r.stage = true) (hup : t ≠ .up)
    (hslot : r.slot = some chunk) (hs : Delivery chunk r calls' s) :
    Booked (s.relay t) (.ofCalls (calls ++ calls')) := by
  have hlive : ∀ result, r.stage ≠ .ended result := by
    rw [stage_of_isDue hdue]
    cases t <;> simp
  have hd := h.sending hlive
  have hcount (answer : Except ChannelError Unit) :
      r.downCount = .ofNat ((Ledger.ofCalls calls).enter (.send (.binary chunk) answer)).down := by
    rw [h.downCount, Ledger.down_enter _ (x := .send _ _) nofun]
  cases hs with
  | blocked _ => simpa using h
  | handed =>
    rw [Ledger.ofCalls_concat]
    refine h.downward rfl ⟨rfl, rfl⟩ (fun _ => ?_) (hcount _) fun _ hended =>
      absurd hended (hlive _)
    rw [hslot] at hd
    exact hd.give
  | refused =>
    rw [Ledger.ofCalls_concat]
    cases t with
    | up => exact absurd rfl hup
    | down =>
      exact h.downward rfl ⟨rfl, rfl⟩ (fun hended => absurd rfl (hended _)) (hcount _) nofun
    | closing =>
      refine h.downward rfl ⟨rfl, rfl⟩ (fun hended => absurd rfl (hended _)) (hcount _) ?_
      rintro _ ⟨⟩
      exact .inl rfl

theorem upStep [ByteStream σ] {calls calls' : List Call} {s : Step σ}
    (h : Booked r (.ofCalls calls)) (hopen : r.stage = .open) (hs : UpStep r calls' s) :
    Booked (s.relay .up) (.ofCalls (calls ++ calls')) := by
  have hw := h.writing
  have hstage : ∀ closing, r.stage ≠ .ended (.ok closing) := by simp [hopen]
  have hcount {x : Call} (hx : x ≠ .flush (.ready ())) :
      r.upCount = .ofNat ((Ledger.ofCalls calls).enter x).up := by
    rw [h.upCount, Ledger.up_enter _ hx]
  cases hs with
  | idle _ _ => simpa using h
  | @pulled item items up hup _ hi =>
    rw [hup] at hw
    rw [Ledger.ofCalls_concat]
    refine h.upward hopen rfl ⟨rfl, rfl, rfl⟩ hstage ?_ (hcount nofun)
    cases item with
    | message m =>
      cases m with
      | binary bs => cases hi; exact ⟨bs, rfl, rfl⟩
      | _ => cases hi; exact hw
    | failure e => cases hi
    | finish => cases hi; exact hw
  | @faulty item items e hup _ hi =>
    rw [hup] at hw
    rw [Ledger.ofCalls_concat]
    refine h.upward hopen rfl ⟨rfl, rfl, rfl⟩ nofun ?_ (hcount nofun)
    rw [Step.relay_stop, after_up, hup]
    cases item with
    | message m => cases m <;> cases hi
    | failure e => exact hw
    | finish => cases hi
  | wrote hup =>
    rw [hup] at hw
    rw [Ledger.ofCalls_append_nil]
    exact ⟨hw, fun _ => h.sending (by simp [hopen]), h.upCount, h.downCount, h.told⟩
  | @took b bs size n remote hup _ =>
    rw [hup] at hw
    obtain ⟨payload, hw, hsize⟩ := hw
    rw [Ledger.ofCalls_concat]
    refine h.upward hopen rfl ⟨rfl, rfl, rfl⟩ hstage ⟨payload, ?_, hsize⟩ (hcount nofun)
    simp [Ledger.enter, hw]
  | @flushed size remote hup _ =>
    rw [hup] at hw
    obtain ⟨payload, hw, hsize⟩ := hw
    rw [Ledger.ofCalls_concat]
    refine h.upward hopen rfl ⟨rfl, rfl, rfl⟩ hstage ?_ ?_
    · rw [Ledger.enter_flush _ hw]
      rfl
    · rw [Ledger.enter_flush _ hw]
      simp [Ledger.up, h.upCount, hsize, UInt64.ofNat_add]
  | shut hup _ =>
    rw [Ledger.ofCalls_concat]
    exact h.upward hopen rfl ⟨rfl, rfl, rfl⟩ nofun hw (hcount nofun)
  | stalled hx hst =>
    rw [Ledger.ofCalls_concat, Ledger.enter_of_isStalled _ hst]
    exact ⟨hw, h.sending, h.upCount, h.downCount, h.told⟩
  | failed hx hf =>
    rw [Ledger.ofCalls_concat, Ledger.enter_of_failure _ hf]
    exact ⟨hw, fun hlive => absurd rfl (hlive _), h.upCount, h.downCount, nofun⟩

theorem downStep [ByteStream σ] {calls calls' : List Call} {s : Step σ}
    (h : Booked r (.ofCalls calls)) (hopen : r.stage = .open) (hs : DownStep r calls' s) :
    Booked (s.relay .down) (.ofCalls (calls ++ calls')) := by
  have hd := h.sending (by simp [hopen])
  have hcount {x : Call} (hx : x ≠ .settle) :
      r.downCount = .ofNat ((Ledger.ofCalls calls).enter x).down := by
    rw [h.downCount, Ledger.down_enter _ hx]
  have hstage {P : Closing → Prop} : ∀ closing, r.stage = .ended (.ok closing) → P closing := by
    simp [hopen]
  cases hs with
  | @got b bs remote hdown _ =>
    rw [hdown] at hd
    rw [Ledger.ofCalls_concat]
    exact h.downward rfl ⟨rfl, rfl⟩ (fun _ => ⟨b :: bs, rfl, .inl ⟨rfl, hd.2⟩⟩) (hcount nofun) hstage
  | finished hdown _ =>
    rw [hdown] at hd
    rw [Ledger.ofCalls_concat]
    exact h.downward rfl ⟨rfl, rfl⟩ (fun _ => hd) (hcount nofun) hstage
  | starved hdown _ =>
    rw [Ledger.ofCalls_concat]
    exact h.downward rfl ⟨rfl, rfl⟩ (fun _ => hd) (hcount nofun) hstage
  | failed hdown _ =>
    rw [Ledger.ofCalls_concat]
    exact h.downward rfl ⟨rfl, rfl⟩ (fun hlive => absurd rfl (hlive _)) (hcount nofun) nofun
  | delivery hdown hslot hdel => exact h.delivery (by rw [hopen]; rfl) nofun hslot hdel
  | unsettled _ _ _ => simpa using h
  | settled hdown hslot =>
    rw [hdown] at hd
    obtain ⟨chunk, hsize, ⟨hsome, -⟩ | ⟨-, hsending⟩⟩ := hd
    · rw [hslot] at hsome
      cases hsome
    · rw [Ledger.ofCalls_concat]
      refine h.downward rfl ⟨rfl, rfl⟩ (fun _ => ?_) ?_ hstage
      · rw [Ledger.enter_settle _ hsending]
        exact ⟨hslot, rfl⟩
      · rw [Ledger.enter_settle _ hsending]
        simp [Ledger.down, h.downCount, hsize, UInt64.ofNat_add]
  | closed hdown =>
    rw [Ledger.ofCalls_concat]
    refine h.downward rfl ⟨rfl, rfl⟩ (fun hlive => absurd rfl (hlive _)) (hcount nofun) ?_
    rintro _ ⟨⟩
    exact .inr rfl
  | unclosed hdown =>
    rw [Ledger.ofCalls_concat]
    exact h.downward rfl ⟨rfl, rfl⟩ (fun hlive => absurd rfl (hlive _)) (hcount nofun) nofun

theorem closingStep {calls calls' : List Call} {s : Step σ} (h : Booked r (.ofCalls calls))
    (hclosing : r.stage = .closing) (hs : ClosingStep r calls' s) :
    Booked (s.relay .closing) (.ofCalls (calls ++ calls')) := by
  cases hs with
  | delivery hslot hdel => exact h.delivery (by rw [hclosing]; rfl) nofun hslot hdel
  | closed hslot _ =>
    rw [Ledger.ofCalls_concat]
    refine h.downward rfl ⟨rfl, rfl⟩ (fun hlive => absurd rfl (hlive _)) ?_ ?_
    · rw [Ledger.down_enter _ (x := .close _) nofun]
      exact h.downCount
    · rintro _ ⟨⟩
      exact .inl rfl

end Booked

end Relay

namespace Course

variable {σ : Type} [ByteStream σ]

theorem booked_run {c : Course σ} (h : c.relay.Booked (.ofCalls c.calls)) (moves : List (Move σ)) :
    (c.run moves).relay.Booked (.ofCalls (c.run moves).calls) :=
  run_induction (P := fun c => c.relay.Booked (.ofCalls c.calls)) (fun h => h.upStep)
    (fun h => h.downStep) (fun h => h.closingStep)
    (fun _ h => ⟨h.writing, h.sending, h.upCount, h.downCount, h.told⟩) h moves

/-- At every point of every run the counts of a relay are what it has carried whole, in words of 64
bits. A relay that has ended well tells the count of the direction that was done first; in place of
the other one it tells 0. -/
theorem tells_first_direction (channel : Channel) (remote : σ) (moves : List (Move σ)) :
    let c := (start channel remote).run moves
    let l := Ledger.ofCalls c.calls
    c.relay.upCount = .ofNat l.up ∧ c.relay.downCount = .ofNat l.down ∧
      ∀ closing, c.relay.stage = .ended (.ok closing) →
        closing = ⟨.inbound, .ofNat l.up, 0⟩ ∨ closing = ⟨.outbound, 0, .ofNat l.down⟩ := by
  intro c l
  have h : c.relay.Booked l := booked_run (.start channel remote) moves
  exact ⟨h.upCount, h.downCount, fun _ => h.told⟩

theorem tells_first_direction_of_chunk :
    let c := (start Channel.idle
      { Script.idle.feed [0x68, 0x65, 0x6c, 0x6c, 0x6f] with ended := true }).run
        (List.replicate 5 (.act .down))
    let l := Ledger.ofCalls c.calls
    c.relay.stage = .ended (.ok ⟨.outbound, 0, 5⟩) ∧
      (Closing.mk .outbound 0 5 = ⟨.inbound, .ofNat l.up, 0⟩ ∨
        Closing.mk .outbound 0 5 = ⟨.outbound, 0, .ofNat l.down⟩) :=
  ⟨rfl, (tells_first_direction _ _ _).2.2 _ rfl⟩

/-- A chunk of five bytes was sent to the client when the client was done, and is not told. -/
theorem losing_direction_untold :
    let c := (start { Channel.idle with items := [.message (.close none)] }
      (Script.idle.feed [0x68, 0x65, 0x6c, 0x6c, 0x6f])).run
        [.act .down, .act .down, .act .down, .act .up, .act .up, .act .closing]
    c.relay.stage = .ended (.ok ⟨.inbound, 0, 0⟩) ∧ (Ledger.ofCalls c.calls).down = 5 :=
  ⟨rfl, rfl⟩

end Course

end Switchyard
