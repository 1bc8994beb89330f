import Switchyard.Proofs.Session.Opening

/-!
# The protocol of a session

At every point of every run the record of a session's own calls is what the protocol allows: items
that do not count, the first one that does, and what follows from that one. Nothing is sent, looked
up or dialed for a client that did not show the user's credentials.
-/

namespace Switchyard

namespace Session

open Calls

variable {id : Identity} {timeout : UInt64} {net : Network} {s : Session}

theorem isOpening_of_turn {task : Task} (h : (s.turn id timeout net task).isOpening = true) :
    s.isOpening = true := by
  cases s with
  | relaying lookups r =>
    cases task with
    | relay =>
      simp only [turn, relay] at h
      split at h <;> cases h
    | _ => cases h
  | ended c lookups remote result => cases task <;> cases h
  | _ => rfl

/-! ### Whole runs -/

/-- The channel, as the session's own calls have left it, after these arrivals. -/
structure Kept (channel : Channel) (arrivals : List Item) (t : Trail) (c : Channel) : Prop where
  items : ∃ arrived, arrived <+: arrivals ∧ pulls t.calls ++ c.items = channel.items ++ arrived ∧
    (t.session.isOpening = true → arrived = arrivals)
  pulled : c.pulled = channel.pulled + (pulls t.calls).length
  sent : c.sent = (handed t.calls).reverse ++ channel.sent

theorem Kept.act {channel c c' : Channel} {arrivals : List Item} {t : Trail} {task : Task}
    (h : Kept channel arrivals t c) (ht : Relay.Traced c (t.session.calls id net task) c') :
    Kept channel arrivals (t.go id timeout net (.act task)) c' where
  items := by
    obtain ⟨arrived, hp, heq, hopen⟩ := h.items
    refine ⟨arrived, hp, ?_, fun ho => hopen (isOpening_of_turn ho)⟩
    rw [← heq, ht.items, Trail.go, pulls_append, List.append_assoc]
  pulled := by rw [ht.pulled, h.pulled, Trail.go, pulls_append, List.length_append, Nat.add_assoc]
  sent := by rw [ht.sent, h.sent, Trail.go, handed_append, List.reverse_append, List.append_assoc]

theorem Kept.change {channel c : Channel} {arrivals : List Item} {t : Trail}
    (h : Kept channel arrivals t c) (w : Change Script) :
    Kept channel (arrivals ++ w.arrivals) (t.go id timeout net (.change w))
      (if t.session.isOpening then w.channel c else c) := by
  obtain ⟨arrived, hp, heq, hopen⟩ := h.items
  have hsession : (t.session.change w).isOpening = t.session.isOpening := by
    cases t.session <;> rfl
  cases ho : t.session.isOpening with
  | true =>
    obtain rfl := hopen ho
    refine ⟨⟨arrived ++ w.arrivals, List.prefix_rfl, ?_, fun _ => rfl⟩, h.pulled, h.sent⟩
    exact (List.append_assoc _ _ _).symm.trans
      ((congrArg (· ++ w.arrivals) heq).trans (List.append_assoc _ _ _))
  | false =>
    refine ⟨⟨arrived, hp.trans (List.prefix_append _ _), heq, fun ho' => ?_⟩, h.pulled, h.sent⟩
    cases (hsession.trans ho).symm.trans ho'

theorem exists_stands_run (channel : Channel) (moves : List Move) :
    let t := (Trail.start channel).run id timeout net moves
    ∃ c, Kept channel (moves.flatMap Move.arrivals) t c ∧ Stands id net c t.calls t.session := by
  have hrun {arrivals : List Item} {t : Trail} (moves : List Move)
      (h : ∃ c, Kept channel arrivals t c ∧ Stands id net c t.calls t.session) :
      ∃ c, Kept channel (arrivals ++ moves.flatMap Move.arrivals) (t.run id timeout net moves) c ∧
        Stands id net c (t.run id timeout net moves).calls
          (t.run id timeout net moves).session := by
    induction moves generalizing arrivals t with
    | nil => simpa [Trail.run] using h
    | cons m moves ih =>
      obtain ⟨c, hk, hs⟩ := h
      rw [List.flatMap_cons, ← List.append_assoc]
      refine ih ?_
      cases m with
      | act task =>
        obtain ⟨c', ht, hs'⟩ := hs.turn timeout task
        exact ⟨c', by simpa [Move.arrivals] using hk.act ht, hs'⟩
      | change w => exact ⟨_, hk.change w, hs.change w⟩
  refine hrun moves ⟨channel, ⟨⟨[], List.nil_prefix, ?_, fun _ => rfl⟩, rfl, rfl⟩, ?_⟩
  · exact (List.append_nil _).symm
  · exact @Stands.awaiting _ _ _ [] fun i hi => by cases hi

/-! ### What follows the first item that counts -/

/-- What a session calls after the first item that counts, and where it then stands. -/
inductive Follows (id : Identity) (net : Network) (item : Item) : List Call → Session → Prop
  | closed {frame : Option CloseFrame} {answer : Except ChannelError Unit} {c : Channel} :
      item = .message (.close frame) →
      Follows id net item [.close answer] (.ended c [] none (.ok ()))
  | refused {c : Channel} : (∀ frame, item ≠ .message (.close frame)) →
      (∀ bs, item = .message (.binary bs) → authenticate id bs = none) →
      Follows id net item [] (.ended c [] none (.ok ()))
  | vless {bs : Bytes} {request : TunnelRequest} {after : List Call} {s : Session} :
      item = .message (.binary bs) → authenticate id bs = some request → request.scheme = .vless →
      after <+: .send (.binary [0, 0]) (.ok ()) :: .settle :: visit net request →
      Follows id net item after s
  | unanswered {bs : Bytes} {request : TunnelRequest} {e : ChannelError} {c : Channel} :
      item = .message (.binary bs) → authenticate id bs = some request → request.scheme = .vless →
      Follows id net item [.send (.binary [0, 0]) (.error e)]
        (.ended c [] none (.error (.channel e)))
  | trojan {bs : Bytes} {request : TunnelRequest} {after : List Call} {s : Session} :
      item = .message (.binary bs) → authenticate id bs = some request → request.scheme = .trojan →
      after <+: visit net request → Follows id net item after s

/-- An item that counts was pulled behind others that do not. -/
def Decided (id : Identity) (net : Network) (calls : List Call) (s : Session) : Prop :=
  ∃ (skipped : List Item) (item : Item) (after : List Call), (∀ i ∈ skipped, i.isSkipped = true) ∧
    item.isSkipped = false ∧ calls = skipped.map .pull ++ .pull item :: after ∧
    Follows id net item after s

theorem Heard.decided {calls tail : List Call} {item : Item} (h : Heard item calls)
    (hc : item.isSkipped = false) (hf : Follows id net item tail s) :
    Decided id net (calls ++ tail) s := by
  obtain ⟨skipped, hs, rfl⟩ := h
  exact ⟨skipped, item, tail, hs, hc, by simp, hf⟩

theorem Greeted.decided {calls : List Call} {request : TunnelRequest}
    (h : Greeted id request calls) {tail : List Call} (ht : tail <+: visit net request)
    (s : Session) :
    Decided id net (calls ++ tail) s := by
  cases h with
  | vless ha hv =>
    obtain ⟨bs, hh, ha⟩ := ha
    rw [List.append_assoc]
    refine hh.decided rfl (.vless rfl ha hv ?_)
    exact List.prefix_append_right_inj [.send (.binary [0, 0]) (.ok ()), .settle] |>.2 ht
  | trojan ha hv =>
    obtain ⟨bs, hh, ha⟩ := ha
    exact hh.decided rfl (.trojan rfl ha hv ht)

theorem Stands.awaiting_or_decided {c : Channel} {calls : List Call} (h : Stands id net c calls s) :
    (∃ skipped : List Item, (∀ i ∈ skipped, i.isSkipped = true) ∧ calls = skipped.map .pull ∧
        s = .awaiting c) ∨
      Decided id net calls s := by
  cases h with
  | awaiting hs => exact .inl ⟨_, hs, rfl, rfl⟩
  | refused hh h₁ h₂ h₃ => exact .inr (by simpa using hh.decided h₁ (.refused h₂ h₃))
  | closed hh => exact .inr (hh.decided rfl (.closed rfl))
  | answering ha hv =>
    obtain ⟨bs, hh, ha⟩ := ha
    exact .inr (by simpa using hh.decided rfl (.vless rfl ha hv List.nil_prefix))
  | unanswered ha hv =>
    obtain ⟨bs, hh, ha⟩ := ha
    exact .inr (hh.decided rfl (.unanswered rfl ha hv))
  | flushing ha hv =>
    obtain ⟨bs, hh, ha⟩ := ha
    exact .inr (hh.decided rfl (.vless rfl ha hv (List.prefix_append [_] _)))
  | dialing hg => exact .inr (by simpa using hg.decided List.nil_prefix _)
  | undialed hg | forwarding hg | unforwarded hg | relaying hg | relayed hg _ =>
    exact .inr (hg.decided List.prefix_rfl _)

/-- Nothing is pulled after the first item that counts. -/
theorem Follows.pulls_eq_nil {item : Item} {after : List Call} (h : Follows id net item after s) :
    pulls after = [] := by
  have hprefix {script : List Call} (hs : pulls script = []) (hp : after <+: script) :
      pulls after = [] := by
    obtain ⟨rest, rfl⟩ := hp
    rw [pulls_append, List.append_eq_nil_iff] at hs
    exact hs.1
  cases h with
  | closed _ => rfl
  | refused _ _ => rfl
  | unanswered _ _ _ => rfl
  | @vless bs request _ _ _ _ _ hp => exact hprefix (by simp [pulls_visit, Call.pulled?]) hp
  | @trojan bs request _ _ _ _ _ hp => exact hprefix (pulls_visit net request) hp

/-- Without the user's credentials only a close is answered, by closing the channel. -/
theorem Follows.of_none {item : Item} {after : List Call} (h : Follows id net item after s)
    (hnone : ∀ bs, item = .message (.binary bs) → authenticate id bs = none) :
    (∃ c, s = .ended c [] none (.ok ())) ∧
      ((∃ frame answer, item = .message (.close frame) ∧ after = [.close answer]) ∨
        (∀ frame, item ≠ .message (.close frame)) ∧ after = []) := by
  cases h with
  | closed hi => exact ⟨⟨_, rfl⟩, .inl ⟨_, _, hi, rfl⟩⟩
  | refused hclose _ => exact ⟨⟨_, rfl⟩, .inr ⟨hclose, rfl⟩⟩
  | vless hi ha _ _ => cases ha.symm.trans (hnone _ hi)
  | unanswered hi ha _ => cases ha.symm.trans (hnone _ hi)
  | trojan hi ha _ _ => cases ha.symm.trans (hnone _ hi)

section Admission

variable {bs : Bytes} {request : TunnelRequest} {after : List Call}
  (h : Follows id net (.message (.binary bs)) after s) (ha : authenticate id bs = some request)
include h ha

theorem Follows.of_vless (hv : request.scheme = .vless) :
    after <+: .send (.binary [0, 0]) (.ok ()) :: .settle :: visit net request ∨
      ∃ e c, after = [.send (.binary [0, 0]) (.error e)] ∧
        s = .ended c [] none (.error (.channel e)) := by
  cases h with
  | closed hi => cases hi
  | refused _ hnone => cases ha.symm.trans (hnone _ rfl)
  | vless hi ha' _ hp =>
    cases hi
    cases ha.symm.trans ha'
    exact .inl hp
  | unanswered _ _ _ => exact .inr ⟨_, _, rfl, rfl⟩
  | trojan hi ha' ht _ =>
    cases hi
    cases ha.symm.trans ha'
    cases hv.symm.trans ht

theorem Follows.of_trojan (ht : request.scheme = .trojan) : after <+: visit net request := by
  cases h with
  | closed hi => cases hi
  | refused _ hnone => cases ha.symm.trans (hnone _ rfl)
  | vless hi ha' hv _ | unanswered hi ha' hv =>
    cases hi
    cases ha.symm.trans ha'
    cases ht.symm.trans hv
  | trojan hi ha' _ hp =>
    cases hi
    cases ha.symm.trans ha'
    exact hp

end Admission

/-- Where a pull stands in a record: all that comes before it are pulls, and if its item counts, it
is the first one that does. -/
theorem split_unique {skipped : List Item} {item item' : Item} {before after after' : List Call}
    (hs : ∀ i ∈ skipped, i.isSkipped = true) (ha : pulls after = [])
    (heq : skipped.map .pull ++ .pull item :: after = before ++ .pull item' :: after') :
    before = (pulls before).map .pull ∧ (∀ i ∈ pulls before, i.isSkipped = true) ∧
      (item'.isSkipped = false → item' = item ∧ after' = after) := by
  induction skipped generalizing before with
  | nil =>
    cases before with
    | nil =>
      cases heq
      exact ⟨rfl, nofun, fun _ => ⟨rfl, rfl⟩⟩
    | cons x before =>
      obtain ⟨-, rfl⟩ := List.cons.inj heq
      simp [Call.pulled?] at ha
  | cons i skipped ih =>
    cases before with
    | nil =>
      obtain ⟨hi, -⟩ := List.cons.inj heq
      cases hi
      refine ⟨rfl, nofun, fun hc => ?_⟩
      cases hc.symm.trans (hs _ List.mem_cons_self)
    | cons x before =>
      obtain ⟨rfl, heq'⟩ := List.cons.inj heq
      obtain ⟨hb, hall, hc⟩ := ih (fun j hj => hs j (List.mem_cons_of_mem _ hj)) heq'
      refine ⟨congrArg (.pull i :: ·) hb, fun j hj => ?_, hc⟩
      rcases List.mem_cons.1 hj with rfl | hj
      · exact hs _ List.mem_cons_self
      · exact hall j hj

/-- Everything in a record that comes before a pull is a pull of an item that does not count. -/
theorem Stands.before_pull {c : Channel} {calls before after : List Call} {item : Item}
    (h : Stands id net c calls s) (heq : calls = before ++ .pull item :: after) :
    before = (pulls before).map .pull ∧ (∀ i ∈ pulls before, i.isSkipped = true) ∧
      (item.isSkipped = false → pulls after = [] ∧ Follows id net item after s) := by
  rcases h.awaiting_or_decided with ⟨skipped, hs, rfl, -⟩ | ⟨skipped, first, rest, hs, -, rfl, hf⟩
  · obtain ⟨skipped, rest, rfl, rfl, hrest⟩ := List.map_eq_append_iff.1 heq
    obtain ⟨item, rest, rfl, hitem, -⟩ := List.map_eq_cons_iff.1 hrest
    cases hitem
    rw [pulls_map_pull]
    refine ⟨rfl, fun i hi => hs i (List.mem_append_left _ hi), fun hc => ?_⟩
    cases hc.symm.trans (hs _ (List.mem_append_right _ List.mem_cons_self))
  · obtain ⟨hb, hall, hc⟩ := split_unique hs hf.pulls_eq_nil heq
    refine ⟨hb, hall, fun hitem => ?_⟩
    obtain ⟨rfl, rfl⟩ := hc hitem
    exact ⟨hf.pulls_eq_nil, hf⟩

theorem Follows.lookups_prefix {item : Item} {after : List Call} (h : Follows id net item after s) :
    lookups after = [] ∨ ∃ bs request, item = .message (.binary bs) ∧
      authenticate id bs = some request ∧ lookups after <+: names request := by
  cases h with
  | closed _ => exact .inl rfl
  | refused _ _ => exact .inl rfl
  | unanswered _ _ _ => exact .inl rfl
  | @vless bs request _ _ hi ha _ hp =>
    exact .inr ⟨bs, request, hi, ha, lookups_visit net request ▸ hp.filterMap Call.name?⟩
  | @trojan bs request _ _ hi ha _ hp =>
    exact .inr ⟨bs, request, hi, ha, lookups_visit net request ▸ hp.filterMap Call.name?⟩

/-- Nothing is pulled behind a lookup. -/
theorem Stands.pull_mem_of_lookUp {c : Channel} {calls before after : List Call} {name : List Char}
    {item : Item} (h : Stands id net c calls s) (heq : calls = before ++ .lookUp name :: after)
    (hmem : .pull item ∈ before ++ .lookUp name :: after) : .pull item ∈ before := by
  rcases List.mem_append.1 hmem with hb | ha
  · exact hb
  · rcases List.mem_cons.1 ha with hx | ha
    · cases hx
    · obtain ⟨between, rest, rfl⟩ := List.append_of_mem ha
      -- Before that pull there would be nothing but pulls.
      have hcalls : calls = (before ++ .lookUp name :: between) ++ .pull item :: rest := by
        rw [heq, List.append_assoc, List.cons_append]
      have hpulls := (h.before_pull hcalls).1
      have hlookUp : .lookUp name ∈ before ++ .lookUp name :: between := by simp
      rw [hpulls] at hlookUp
      simp at hlookUp

/-- A name is looked up at most once, after the first message, and it is the one that the message
gives. -/
theorem Stands.lookUp_once {c : Channel} {calls before after : List Call} {name : List Char}
    (h : Stands id net c calls s) (heq : calls = before ++ .lookUp name :: after) :
    (∃ bs request, .pull (.message (.binary bs)) ∈ before ∧ authenticate id bs = some request ∧
        name = request.host.text ∧ IpAddress.isLiteral name = false) ∧
      lookups before = [] ∧ lookups after = [] := by
  have hlookups : lookups calls = lookups before ++ name :: lookups after := by
    rw [heq, lookups_append, lookups_cons]
    rfl
  rcases h.awaiting_or_decided with ⟨skipped, hs, hc, -⟩ | ⟨skipped, first, rest, hs, -, hc, hf⟩
  · rw [hc, lookups_map_pull] at hlookups
    simp at hlookups
  · rw [hc, lookups_append, lookups_map_pull, lookups_cons] at hlookups
    change lookups rest = _ at hlookups
    rcases hf.lookups_prefix with hnone | ⟨bs, request, rfl, ha, hp⟩
    · rw [hnone] at hlookups
      simp at hlookups
    · rw [hlookups, names] at hp
      split at hp
      · simp at hp
      · next hliteral =>
        -- There is room for one name.
        have hone : lookups before = [] ∧ name = request.host.text ∧ lookups after = [] := by
          cases hb : lookups before with
          | nil => simpa [hb, List.cons_prefix_cons] using hp
          | cons y ys => simp [hb, List.cons_prefix_cons] at hp
        refine ⟨⟨bs, request, ?_, ha, hone.2.1, ?_⟩, hone.1, hone.2.2⟩
        · have hmem : .pull (.message (.binary bs)) ∈ before ++ .lookUp name :: after := by
            rw [← heq, hc]
            simp
          exact h.pull_mem_of_lookUp heq hmem
        · rw [hone.2.1]
          exact Bool.not_eq_true _ ▸ hliteral

/-! ### Polls -/

/-- There is nothing more to do at a stage, unless the session stands elsewhere. -/
def Rests : Task → Session → Prop
  | .receive, .awaiting c => c.items = []
  | .answer, .answering c _ _ => c.blocked = true
  | .flush, .flushing c _ => c.flushBlocked = true
  | .connect, .dialing _ _ => False
  | _, _ => True

theorem rests_receive : Rests .receive (s.receive id) := by
  cases s with
  | awaiting c =>
    simp only [receive, pullFirst_eq]
    have hfirst := List.head?_dropWhile_not Item.isSkipped c.items
    generalize c.items.dropWhile Item.isSkipped = left at hfirst ⊢
    cases left with
    | nil => rfl
    | cons item rest =>
      have hr := reacts id item
      simp only [List.head?_cons, Option.map_some] at hfirst ⊢
      generalize react id item = reaction at hr
      cases hr with
      | skip hskip =>
        rw [hfirst] at hskip
        cases hskip
      | _ => trivial
  | _ => trivial

theorem rests_answer : Rests .answer s.answer := by
  cases s with
  | answering c request reply =>
    simp only [answer]
    split
    · next hb => exact hb
    · split <;> trivial
  | _ => trivial

theorem rests_flush : Rests .flush s.flush := by
  cases s with
  | flushing c request =>
    simp only [flush]
    split
    · next hf => exact hf
    · trivial
  | _ => trivial

theorem rests_connect : Rests .connect (s.connect timeout net) := by
  cases s with
  | dialing c request =>
    simp only [connect]
    split <;> trivial
  | _ => trivial

namespace Rests

variable {task : Task} (h : Rests task s)
include h

/-- A stage that a session has left is not taken up again. -/
theorem answer (ht : task ≠ .flush) : Rests task s.answer := by
  cases s with
  | answering c request reply =>
    simp only [Session.answer]
    split
    · exact h
    · split <;> cases task <;> trivial
  | _ => exact h

theorem flush (ht : task ≠ .connect) : Rests task s.flush := by
  cases s with
  | flushing c request =>
    simp only [Session.flush]
    split
    · exact h
    · cases task <;> trivial
  | _ => exact h

theorem connect : Rests task (s.connect timeout net) := by
  cases s with
  | dialing c request =>
    simp only [Session.connect]
    split <;> cases task <;> trivial
  | _ => exact h

theorem forward : Rests task s.forward := by
  cases s with
  | forwarding c lookups rest remote =>
    simp only [Session.forward]
    split <;> cases task <;> trivial
  | _ => exact h

theorem relay : Rests task s.relay := by
  cases s with
  | relaying lookups r =>
    simp only [Session.relay]
    split <;> cases task <;> trivial
  | _ => exact h

end Rests

/-- A session that was polled waits for its channel, or has come to the remote stream or to its end.
-/
theorem rests_poll (id : Identity) (timeout : UInt64) (net : Network) (s : Session) (task : Task) :
    Rests task (s.poll id timeout net) := by
  have h₁ : Rests .receive (s.receive id) := rests_receive
  generalize hs₁ : s.receive id = s₁ at h₁
  have h₂ : Rests .receive s₁.answer ∧ Rests .answer s₁.answer := ⟨h₁.answer nofun, rests_answer⟩
  generalize hs₂ : s₁.answer = s₂ at h₂
  have h₃ : Rests .receive s₂.flush ∧ Rests .answer s₂.flush ∧ Rests .flush s₂.flush :=
    ⟨h₂.1.flush nofun, h₂.2.flush nofun, rests_flush⟩
  generalize hs₃ : s₂.flush = s₃ at h₃
  have hpoll : s.poll id timeout net = ((s₃.connect timeout net).forward).relay := by
    rw [← hs₃, ← hs₂, ← hs₁]
    rfl
  rw [hpoll]
  have hlater {task : Task} (h : Rests task (s₃.connect timeout net)) :
      Rests task ((s₃.connect timeout net).forward).relay := h.forward.relay
  cases task with
  | receive => exact hlater h₃.1.connect
  | answer => exact hlater h₃.2.1.connect
  | flush => exact hlater h₃.2.2.connect
  | connect => exact hlater rests_connect
  | forward => trivial
  | relay => trivial

/-- Whatever the client sends and however channel and network behave, a session follows its
protocol: it pulls items up to the first one that counts, and answers, looks up and dials for the
user's first message only. A VLESS message is answered before, a Trojan message is not answered. A
session goes on until it has to wait for its channel. -/
theorem follows_protocol (id : Identity) (timeout : UInt64) (net : Network) (channel : Channel)
    (moves : List Move) :
    let t := (Trail.start channel).run id timeout net moves
    (∃ c, Kept channel (moves.flatMap Move.arrivals) t c ∧ Stands id net c t.calls t.session) ∧
      (∀ before item after, t.calls = before ++ .pull item :: after →
        before = (pulls before).map .pull ∧ (∀ i ∈ pulls before, i.isSkipped = true) ∧
          (item.isSkipped = false → pulls after = [])) ∧
      (∀ before item after, t.calls = before ++ .pull item :: after → item.isSkipped = false →
        (∀ bs, item = .message (.binary bs) → authenticate id bs = none) →
        (∃ c, t.session = .ended c [] none (.ok ())) ∧
          ((∃ frame answer, item = .message (.close frame) ∧ after = [.close answer]) ∨
            (∀ frame, item ≠ .message (.close frame)) ∧ after = [])) ∧
      (∀ before bs request after, t.calls = before ++ .pull (.message (.binary bs)) :: after →
        authenticate id bs = some request → request.scheme = .vless →
        after <+: .send (.binary [0, 0]) (.ok ()) :: .settle :: visit net request ∨
          ∃ e c, after = [.send (.binary [0, 0]) (.error e)] ∧
            t.session = .ended c [] none (.error (.channel e))) ∧
      (∀ before bs request after, t.calls = before ++ .pull (.message (.binary bs)) :: after →
        authenticate id bs = some request → request.scheme = .trojan →
        after <+: visit net request) ∧
      (∀ before name after, t.calls = before ++ .lookUp name :: after →
        (∃ bs request, .pull (.message (.binary bs)) ∈ before ∧ authenticate id bs = some request ∧
            name = request.host.text ∧ IpAddress.isLiteral name = false) ∧
          lookups before = [] ∧ lookups after = []) ∧
      (t.run id timeout net
          ([.receive, .answer, .flush, .connect, .forward, .relay].map .act)).session =
        t.session.poll id timeout net ∧
      ∀ task, Rests task (t.session.poll id timeout net) := by
  intro t
  obtain ⟨c, hk, h⟩ : ∃ c, Kept channel (moves.flatMap Move.arrivals) t c ∧
    Stands id net c t.calls t.session := exists_stands_run channel moves
  refine ⟨⟨c, hk, h⟩, fun before item after heq => ?_, fun before item after heq hc hnone => ?_,
    fun before bs request after heq ha hv => ?_, fun before bs request after heq ha hv => ?_,
    fun before name after heq => h.lookUp_once heq, rfl, rests_poll id timeout net t.session⟩
  · obtain ⟨hb, hall, hf⟩ := h.before_pull heq
    exact ⟨hb, hall, fun hc => (hf hc).1⟩
  · exact ((h.before_pull heq).2.2 hc).2.of_none hnone
  · exact ((h.before_pull heq).2.2 rfl).2.of_vless ha hv
  · exact ((h.before_pull heq).2.2 rfl).2.of_trojan ha hv

end Session

end Switchyard
