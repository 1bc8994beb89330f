import Switchyard.Proofs.Session.Course
import Switchyard.Proofs.Tunnel.Authenticate
import Switchyard.Session.Session

/-!
# The opening of a session

Until it relays, a session makes few calls to its channel and to the network, and in one order: it
pulls items up to the first one that counts, and if that is the user's first message it answers as
the scheme asks for and goes to the destination, after a lookup if that is a name. `Trail` is a
session with the record of these calls, and `Stands` says what the record is at each stage.
-/

namespace Switchyard

/-- Text, pings and pongs do not count. -/
def Item.isSkipped : Item → Bool
  | .message (.text _) => true
  | .message (.ping _) => true
  | .message (.pong _) => true
  | _ => false

namespace Session

open Calls

/-! ### The first item that counts -/

/-- The decision about an item, in all its cases. -/
inductive Reacts (id : Identity) : Item → Reaction → Prop
  | skip {item : Item} : item.isSkipped = true → Reacts id item .skip
  | close {frame : Option CloseFrame} : Reacts id (.message (.close frame)) (.leave true)
  | refuse {item : Item} : item.isSkipped = false → (∀ frame, item ≠ .message (.close frame)) →
      (∀ bs, item = .message (.binary bs) → authenticate id bs = none) →
      Reacts id item (.leave false)
  | vless {bs : Bytes} {request : TunnelRequest} : authenticate id bs = some request →
      request.scheme = .vless → Reacts id (.message (.binary bs)) (.serve request (some [0, 0]))
  | trojan {bs : Bytes} {request : TunnelRequest} : authenticate id bs = some request →
      request.scheme = .trojan → Reacts id (.message (.binary bs)) (.serve request none)

theorem reacts_binary (id : Identity) (bs : Bytes) :
    Reacts id (.message (.binary bs)) (react id (.message (.binary bs))) := by
  simp only [react]
  cases h : authenticate id bs with
  | none =>
    refine .refuse rfl (fun _ heq => by cases heq) fun bs' heq => ?_
    cases heq
    exact h
  | some request =>
    cases bs with
    | nil =>
      rcases authenticate_eq_some.1 h with hv | ht
      · cases hv.version
      · obtain ⟨m, -, rfl⟩ := ht.layout
        exact .trojan h rfl
    | cons version rest =>
      simp only [List.headD_cons]
      rcases reply_of_authenticate h with ⟨hs, hr⟩ | ⟨hs, hr⟩
      · rw [hr]
        exact .vless h hs
      · rw [hr]
        exact .trojan h hs

theorem reacts (id : Identity) (item : Item) : Reacts id item (react id item) := by
  cases item with
  | message m =>
    cases m with
    | binary bs => exact reacts_binary id bs
    | close frame => exact .close
    | _ => exact .skip rfl
  | _ => exact .refuse rfl (fun _ heq => by cases heq) fun _ heq => by cases heq

theorem react_eq_skip_iff {id : Identity} {item : Item} :
    react id item = .skip ↔ item.isSkipped = true := by
  constructor
  · intro h
    have hr := reacts id item
    rw [h] at hr
    cases hr with
    | skip hs => exact hs
  · intro h
    cases item with
    | message m => cases m <;> first | rfl | cases h
    | _ => cases h

/-- The items that are pulled up to the first one that counts. -/
def opening (items : List Item) : List Item :=
  items.takeWhile Item.isSkipped ++ (items.dropWhile Item.isSkipped).head?.toList

theorem pullFirst_eq (id : Identity) (c : Channel) (items : List Item) :
    pullFirst id c items =
      ((items.dropWhile Item.isSkipped).head?.map (react id),
        { c with
          items := (items.dropWhile Item.isSkipped).tail
          pulled := c.pulled + (opening items).length }) := by
  induction items generalizing c with
  | nil => rfl
  | cons item items ih =>
    unfold pullFirst
    cases hs : item.isSkipped with
    | true =>
      have hskip : react id item = .skip := react_eq_skip_iff.2 hs
      simp only [hskip, ih, opening, List.takeWhile_cons, List.dropWhile_cons, hs, if_true,
        List.cons_append, List.length_cons]
      simp only [Nat.add_assoc, Nat.add_comm 1]
    | false =>
      have hcounts : react id item ≠ .skip := fun h => by
        rw [react_eq_skip_iff.1 h] at hs
        cases hs
      simp [opening, hs]

/-! ### The calls of a session -/

/-- Receiving pulls items, and closes the channel if the client has asked for that. -/
def callsReceive (id : Identity) (c : Channel) : List Call :=
  (opening c.items).map .pull ++
    match pullFirst id c c.items with
    | (some (.leave true), c) => [.close c.close.1]
    | _ => []

/-- The names that a request needs looked up: its host, if that is no address. -/
def names (request : TunnelRequest) : List (List Char) :=
  if IpAddress.isLiteral request.host.text then [] else [request.host.text]

/-- Going to the destination of a request. -/
def visit (net : Network) (request : TunnelRequest) : List Call :=
  (names request).map .lookUp ++ [.dial (net.target request.host.text) request.tcp]

/-- What a session calls of its channel and of the network when it goes on from a stage, other than
in relaying. -/
def calls (id : Identity) (net : Network) : Task → Session → List Call
  | .receive, .awaiting c => callsReceive id c
  | .answer, .answering c _ reply =>
    if c.blocked then [] else [.send (.binary reply) (c.handOver (.binary reply)).1]
  | .flush, .flushing c _ => if c.flushBlocked then [] else [.settle]
  | .connect, .dialing _ request => visit net request
  | _, _ => []

/-- The session has not begun to relay. -/
def isOpening : Session → Bool
  | .relaying _ _ => false
  | .ended _ _ _ _ => false
  | _ => true

/-- What the world does to a session that has not ended. -/
def change (w : Change Script) : Session → Session
  | .awaiting c => .awaiting (w.channel c)
  | .answering c request reply => .answering (w.channel c) request reply
  | .flushing c request => .flushing (w.channel c) request
  | .dialing c request => .dialing (w.channel c) request
  | .forwarding c lookups rest remote => .forwarding (w.channel c) lookups rest (w.remote remote)
  | .relaying lookups r => .relaying lookups (r.change w)
  | .ended c lookups remote result => .ended c lookups remote result

/-- A session with the record of its calls. -/
structure Trail where
  calls : List Call
  session : Session

/-- A session goes on from a stage, or the world around changes. -/
inductive Move where
  | act (t : Task)
  | change (w : Change Script)

def Move.arrivals : Move → List Item
  | act _ => []
  | change w => w.arrivals

namespace Trail

def start (c : Channel) : Trail :=
  ⟨[], .awaiting c⟩

variable (id : Identity) (timeout : UInt64) (net : Network)

def go (m : Move) (t : Trail) : Trail :=
  match m with
  | .act task => ⟨t.calls ++ t.session.calls id net task, t.session.turn id timeout net task⟩
  | .change w => { t with session := t.session.change w }

def run (moves : List Move) (t : Trail) : Trail :=
  moves.foldl (fun t m => t.go id timeout net m) t

end Trail

/-! ### What the record is at each stage -/

/-- The record after the first item that counts. -/
def Heard (item : Item) (calls : List Call) : Prop :=
  ∃ skipped : List Item, (∀ i ∈ skipped, i.isSkipped = true) ∧
    calls = skipped.map .pull ++ [.pull item]

/-- The record after the user's first message. -/
def Admitted (id : Identity) (request : TunnelRequest) (calls : List Call) : Prop :=
  ∃ bs, Heard (.message (.binary bs)) calls ∧ authenticate id bs = some request

/-- The record when everything was answered that the scheme asks for. -/
inductive Greeted (id : Identity) (request : TunnelRequest) : List Call → Prop
  | vless {calls : List Call} : Admitted id request calls → request.scheme = .vless →
      Greeted id request (calls ++ [.send (.binary [0, 0]) (.ok ()), .settle])
  | trojan {calls : List Call} : Admitted id request calls → request.scheme = .trojan →
      Greeted id request calls

/-- The record of a session, and the channel as its own calls have left it. -/
inductive Stands (id : Identity) (net : Network) (c : Channel) : List Call → Session → Prop
  | awaiting {skipped : List Item} : (∀ i ∈ skipped, i.isSkipped = true) →
      Stands id net c (skipped.map .pull) (.awaiting c)
  | refused {calls : List Call} {item : Item} : Heard item calls → item.isSkipped = false →
      (∀ frame, item ≠ .message (.close frame)) →
      (∀ bs, item = .message (.binary bs) → authenticate id bs = none) →
      Stands id net c calls (.ended c [] none (.ok ()))
  | closed {calls : List Call} {frame : Option CloseFrame} {answer : Except ChannelError Unit} :
      Heard (.message (.close frame)) calls →
      Stands id net c (calls ++ [.close answer]) (.ended c [] none (.ok ()))
  | answering {calls : List Call} {request : TunnelRequest} : Admitted id request calls →
      request.scheme = .vless → Stands id net c calls (.answering c request [0, 0])
  | unanswered {calls : List Call} {request : TunnelRequest} {e : ChannelError} :
      Admitted id request calls → request.scheme = .vless →
      Stands id net c (calls ++ [.send (.binary [0, 0]) (.error e)])
        (.ended c [] none (.error (.channel e)))
  | flushing {calls : List Call} {request : TunnelRequest} : Admitted id request calls →
      request.scheme = .vless →
      Stands id net c (calls ++ [.send (.binary [0, 0]) (.ok ())]) (.flushing c request)
  | dialing {calls : List Call} {request : TunnelRequest} : Greeted id request calls →
      Stands id net c calls (.dialing c request)
  | undialed {calls : List Call} {request : TunnelRequest} {e : DialError} :
      Greeted id request calls →
      Stands id net c (calls ++ visit net request)
        (.ended c (names request) none (.error (.dial e)))
  | forwarding {calls : List Call} {request : TunnelRequest} {rest : Bytes} {remote : Script} :
      Greeted id request calls →
      Stands id net c (calls ++ visit net request) (.forwarding c (names request) rest remote)
  | unforwarded {calls : List Call} {request : TunnelRequest} {remote : Script} {e : StreamError} :
      Greeted id request calls →
      Stands id net c (calls ++ visit net request)
        (.ended c (names request) (some remote) (.error (.payload e)))
  /-- The relay has begun with that channel. -/
  | relaying {calls : List Call} {request : TunnelRequest} {remote : Script}
      {moves : List (Switchyard.Move Script)} :
      Greeted id request calls →
      Stands id net c (calls ++ visit net request)
        (.relaying (names request) ((Course.start c remote).run moves).relay)
  | relayed {calls : List Call} {request : TunnelRequest} {remote : Script}
      {moves : List (Switchyard.Move Script)} {answer : Except RelayError Closing} :
      Greeted id request calls →
      ((Course.start c remote).run moves).relay.stage = .ended answer →
      Stands id net c (calls ++ visit net request)
        (.ended ((Course.start c remote).run moves).relay.channel (names request)
          (some ((Course.start c remote).run moves).relay.remote)
          ((answer.map fun _ => ()).mapError .relay))

variable {id : Identity} {timeout : UInt64} {net : Network} {c : Channel} {calls : List Call}
  {s : Session}

/-! ### What one stage does -/

theorem pulls_map_pull (items : List Item) : pulls (items.map .pull) = items := by
  rw [pulls, List.filterMap_map]
  exact List.filterMap_some

theorem handed_map_pull (items : List Item) : handed (items.map .pull) = [] := by
  rw [handed, List.filterMap_map]
  exact List.filterMap_eq_nil_iff.2 fun _ _ => rfl

theorem lookups_map_pull (items : List Item) : lookups (items.map .pull) = [] := by
  rw [lookups, List.filterMap_map]
  exact List.filterMap_eq_nil_iff.2 fun _ _ => rfl

theorem silent_visit {net : Network} {request : TunnelRequest} {x : Call}
    (hx : x ∈ visit net request) : x.pulled? = none ∧ x.handed? = none := by
  rw [visit, List.mem_append, List.mem_map, List.mem_singleton] at hx
  rcases hx with ⟨name, -, rfl⟩ | rfl <;> exact ⟨rfl, rfl⟩

theorem pulls_visit (net : Network) (request : TunnelRequest) : pulls (visit net request) = [] :=
  List.filterMap_eq_nil_iff.2 fun _ hx => (silent_visit hx).1

theorem handed_visit (net : Network) (request : TunnelRequest) : handed (visit net request) = [] :=
  List.filterMap_eq_nil_iff.2 fun _ hx => (silent_visit hx).2

theorem lookups_visit (net : Network) (request : TunnelRequest) :
    lookups (visit net request) = names request := by
  simp [visit, lookups, List.filterMap_map, Function.comp_def, Call.name?]

theorem traced_visit (c : Channel) (net : Network) (request : TunnelRequest) :
    Relay.Traced c (visit net request) c := by
  have hopen : .close (.ok ()) ∉ visit net request := by simp [visit]
  constructor <;> simp [pulls_visit, handed_visit, hopen]

theorem traced_pulls {c : Channel} {items rest : List Item} (h : c.items = items ++ rest) :
    Relay.Traced c (items.map .pull)
      { c with items := rest, pulled := c.pulled + items.length } := by
  constructor <;> simp [pulls_map_pull, handed_map_pull, h]

theorem Heard.of_skipped {skipped skipped' : List Item} {item : Item}
    (hs : ∀ i ∈ skipped, i.isSkipped = true) (hs' : ∀ i ∈ skipped', i.isSkipped = true) :
    Heard item (skipped.map .pull ++ (skipped' ++ [item]).map .pull) :=
  ⟨skipped ++ skipped', fun i hi => (List.mem_append.1 hi).elim (hs i) (hs' i), by simp⟩

namespace Stands

theorem unmoved (h : Stands id net c calls s) :
    ∃ c', Relay.Traced c [] c' ∧ Stands id net c' (calls ++ []) s :=
  ⟨c, .refl c, by rwa [List.append_nil]⟩

theorem receive (h : Stands id net c calls s) :
    ∃ c', Relay.Traced c (s.calls id net .receive) c' ∧
      Stands id net c' (calls ++ s.calls id net .receive) (s.receive id) := by
  have hu := h.unmoved
  cases h with
  | @awaiting skipped hs =>
    simp only [Session.calls, callsReceive, Session.receive, pullFirst_eq, opening]
    have hsplit : c.items = c.items.takeWhile Item.isSkipped ++ c.items.dropWhile Item.isSkipped :=
      List.takeWhile_append_dropWhile.symm
    have hs' : ∀ i ∈ c.items.takeWhile Item.isSkipped, i.isSkipped = true := fun i hi =>
      List.all_eq_true.1 List.all_takeWhile i hi
    have hfirst := List.head?_dropWhile_not Item.isSkipped c.items
    generalize c.items.takeWhile Item.isSkipped = skipped' at *
    generalize c.items.dropWhile Item.isSkipped = left at *
    cases left with
    | nil =>
      -- Nothing that counts has come yet.
      have ht := traced_pulls hsplit
      simp only [List.head?_nil, Option.map_none, Option.toList_none, List.tail_nil,
        List.append_nil]
      refine ⟨_, ht, ?_⟩
      rw [← List.map_append]
      exact .awaiting fun i hi => (List.mem_append.1 hi).elim (hs i) (hs' i)
    | cons item rest =>
      have hheard : Heard item (skipped.map .pull ++ (skipped' ++ [item]).map .pull) :=
        .of_skipped hs hs'
      have hitems : c.items = (skipped' ++ [item]) ++ rest := by rw [hsplit, List.append_cons]
      have ht := traced_pulls hitems
      have hr := reacts id item
      simp only [List.head?_cons, Option.map_some, Option.toList_some, List.tail_cons] at hfirst ⊢
      generalize react id item = reaction at hr
      cases hr with
      | skip hskip =>
        rw [hfirst] at hskip
        cases hskip
      | close =>
        refine ⟨_, ht.close, ?_⟩
        rw [← List.append_assoc]
        exact .closed hheard
      | refuse h₁ h₂ h₃ =>
        rw [List.append_nil]
        exact ⟨_, ht, .refused hheard h₁ h₂ h₃⟩
      | @vless bs request ha hv =>
        rw [List.append_nil]
        exact ⟨_, ht, .answering ⟨bs, hheard, ha⟩ hv⟩
      | @trojan bs request ha hv =>
        rw [List.append_nil]
        exact ⟨_, ht, .dialing (.trojan ⟨bs, hheard, ha⟩ hv)⟩
  | _ => exact hu

theorem answer (h : Stands id net c calls s) :
    ∃ c', Relay.Traced c (s.calls id net .answer) c' ∧
      Stands id net c' (calls ++ s.calls id net .answer) s.answer := by
  have hu := h.unmoved
  cases h with
  | answering ha hv =>
    obtain ⟨items, pulled, blocked, flushBlocked, sendError, closeError, sent, isClosed⟩ := c
    cases blocked with
    | true => exact hu
    | false =>
      cases sendError with
      | none => exact ⟨_, .handOver _ _, .flushing ha hv⟩
      | some e => exact ⟨_, .handOver _ _, .unanswered ha hv⟩
  | _ => exact hu

theorem flush (h : Stands id net c calls s) :
    ∃ c', Relay.Traced c (s.calls id net .flush) c' ∧
      Stands id net c' (calls ++ s.calls id net .flush) s.flush := by
  have hu := h.unmoved
  cases h with
  | flushing ha hv =>
    cases hf : c.flushBlocked with
    | true => simpa only [Session.calls, Session.flush, hf, if_true] using hu
    | false =>
      simp only [Session.calls, Session.flush, hf, Bool.false_eq_true, if_false]
      refine ⟨c, ?_, .dialing (by simpa using Greeted.vless ha hv)⟩
      constructor <;> simp [Call.pulled?, Call.handed?]
  | _ => exact hu

theorem connect (h : Stands id net c calls s) :
    ∃ c', Relay.Traced c (s.calls id net .connect) c' ∧
      Stands id net c' (calls ++ s.calls id net .connect) (s.connect timeout net) := by
  have hu := h.unmoved
  cases h with
  | @dialing _ request hg =>
    have ht : Relay.Traced c (visit net request) c := traced_visit c net request
    simp only [Session.calls, Session.connect, Network.dial]
    cases net.connect (net.target request.host.text) request.tcp with
    | connected remote => exact ⟨c, ht, .forwarding hg⟩
    | refused reason => exact ⟨c, ht, .undialed hg⟩
    | timedOut => exact ⟨c, ht, .undialed hg⟩
  | _ => exact hu

theorem forward (h : Stands id net c calls s) :
    ∃ c', Relay.Traced c [] c' ∧ Stands id net c' (calls ++ []) s.forward := by
  have hu := h.unmoved
  cases h with
  | @forwarding _ request rest remote hg =>
    simp only [Session.forward, List.append_nil]
    rcases writeAll rest remote with ⟨written, remote'⟩
    cases written with
    | done => exact ⟨c, .refl c, @relaying id net c _ request remote' [] hg⟩
    | waiting rest => exact ⟨c, .refl c, .forwarding hg⟩
    | failed e => exact ⟨c, .refl c, .unforwarded hg⟩
  | _ => exact hu

theorem relay (h : Stands id net c calls s) :
    ∃ c', Relay.Traced c [] c' ∧ Stands id net c' (calls ++ []) s.relay := by
  have hu := h.unmoved
  cases h with
  | @relaying _ request remote moves hg =>
    obtain ⟨tasks, hpoll⟩ := Course.exists_poll ((Course.start c remote).run moves)
    rw [← Course.run_append] at hpoll
    simp only [Session.relay, List.append_nil, ← hpoll]
    cases hstage : ((Course.start c remote).run (moves ++ tasks.map .act)).relay.stage with
    | «open» => exact ⟨c, .refl c, .relaying hg⟩
    | closing => exact ⟨c, .refl c, .relaying hg⟩
    | ended answer =>
      cases answer with
      | ok closing => exact ⟨c, .refl c, .relayed hg hstage⟩
      | error e => exact ⟨c, .refl c, .relayed hg hstage⟩
  | _ => exact hu

theorem turn (h : Stands id net c calls s) (timeout : UInt64) (task : Task) :
    ∃ c', Relay.Traced c (s.calls id net task) c' ∧
      Stands id net c' (calls ++ s.calls id net task) (s.turn id timeout net task) := by
  cases task with
  | receive => exact h.receive
  | answer => exact h.answer
  | flush => exact h.flush
  | connect => exact h.connect
  | forward => simpa only [Session.calls, Session.turn] using h.forward
  | relay => simpa only [Session.calls, Session.turn] using h.relay

/-- What arrives goes to the session's own channel until it relays. -/
theorem change (h : Stands id net c calls s) (w : Change Script) :
    Stands id net (if s.isOpening then w.channel c else c) calls (s.change w) := by
  cases h with
  | awaiting hs => exact .awaiting hs
  | refused h₁ h₂ h₃ h₄ => exact .refused h₁ h₂ h₃ h₄
  | closed hh => exact .closed hh
  | answering ha hv => exact .answering ha hv
  | unanswered ha hv => exact .unanswered ha hv
  | flushing ha hv => exact .flushing ha hv
  | dialing hg => exact .dialing hg
  | undialed hg => exact .undialed hg
  | forwarding hg => exact .forwarding hg
  | unforwarded hg => exact .unforwarded hg
  | @relaying _ request remote moves hg =>
    have hrun : (((Course.start c remote).run moves).relay.change w) =
        ((Course.start c remote).run (moves ++ [.change w])).relay := by
      rw [Course.run_append]
      rfl
    simp only [Session.change, hrun]
    exact .relaying hg
  | relayed hg hstage => exact .relayed hg hstage

end Stands

end Session

end Switchyard
