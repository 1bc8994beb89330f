import Switchyard.Proofs.Connection.Steps
import Switchyard.Proofs.Stream.Writing
import Switchyard.Proofs.Web.Asking

/-!
# What a stranger learns

A stranger is a client that neither asks for the subscription nor presents the credentials of a user.
The user enters into what a connection does at two places: the subscription names the user, and the
first message of a channel is compared with the credentials. So a connection on which neither happens
is the same for any two users, step by step and along every run of moves, and its sessions look
nothing up and dial nothing.
-/

namespace Switchyard

/-- A message carries neither user's credentials. -/
def Unknown (id id' : Identity) (message : Bytes) : Prop :=
  authenticate id message = none ∧ authenticate id' message = none

/-! ### Channels -/

/-- What remains of a channel's session, if it is over. -/
def ChannelPoll.visit? {σ : Type} : ChannelPoll σ → Option Visit
  | waiting _ => none
  | ended _ visit => some visit

namespace Session

theorem react_of_binary {id : Identity} {bs : Bytes} (h : authenticate id bs = none) :
    react id (.message (.binary bs)) = .leave false := by
  simp only [react, h]

/-- Credentials count in binary messages only. -/
theorem react_congr {id id' : Identity} {m : Message}
    (h : ∀ bs ∈ m.binary?, Unknown id id' bs) :
    react id' (.message m) = react id (.message m) := by
  cases m with
  | binary bs =>
    obtain ⟨hid, hid'⟩ := h bs rfl
    rw [react_of_binary hid, react_of_binary hid']
  | _ => rfl

theorem binary?_of_skip {id : Identity} {m : Message} (h : react id (.message m) = .skip) :
    m.binary? = none := by
  cases m with
  | binary bs =>
    simp only [react] at h
    split at h <;> cases h
  | _ => rfl

theorem not_serve {id id' : Identity} {m : Message} (h : ∀ bs ∈ m.binary?, Unknown id id' bs)
    (request : TunnelRequest) (reply : Option Bytes) :
    react id (.message m) ≠ .serve request reply := by
  cases m with
  | binary bs =>
    rw [react_of_binary (h bs rfl).1]
    nofun
  | _ => nofun

end Session

namespace OpenChannel

variable {σ : Type} [ByteStream σ] {id : Identity} {resolve : List Char → List Char}
  {timeout : UInt64} {c : OpenChannel σ}

/-! ### Message by message -/

theorem poll_of_broken (hn : c.receiver.next = .broken) :
    c.poll id resolve timeout = .ended c.stream.inner .empty := by
  rw [poll.eq_def]
  split
  case h_1 => rfl
  all_goals next h => cases hn.symm.trans h

theorem poll_of_part {receiver : Receiver} (hn : c.receiver.next = .part receiver) :
    c.poll id resolve timeout = poll id resolve timeout { c with receiver } := by
  rw [poll.eq_def]
  split
  case h_2 h =>
    cases hn.symm.trans h
    rfl
  all_goals next h => cases hn.symm.trans h

theorem poll_of_message {m : Message} {receiver : Receiver}
    (hn : c.receiver.next = .message m receiver) :
    c.poll id resolve timeout =
      if (send m.reply { c with receiver }).1 then
        match Session.react id (.message m) with
        | .skip => (send m.reply { c with receiver }).2.poll id resolve timeout
        | .leave _ => .ended (send m.reply { c with receiver }).2.stream.inner ⟨m.binary?, none, []⟩
        | .serve request reply =>
          (send m.reply { c with receiver }).2.serve resolve timeout m.binary? request reply
      else .ended (send m.reply { c with receiver }).2.stream.inner ⟨m.binary?, none, []⟩ := by
  rw [poll.eq_def]
  split
  case h_3 h =>
    cases hn.symm.trans h
    split <;> (next hs => rw [hs]; rfl)
  all_goals next h => cases hn.symm.trans h

theorem poll_of_hungry (hn : c.receiver.next = .hungry) :
    c.poll id resolve timeout =
      match c.stream.read chunkSize with
      | (.pending, stream) => .waiting { c with stream }
      | (.failed _, stream) => .ended stream.inner .empty
      | (.ready [], stream) => .ended stream.inner .empty
      | (.ready (b :: bs), stream) =>
        poll id resolve timeout
          ⟨stream, { c.receiver with unread := c.receiver.unread ++ b :: bs }⟩ := by
  rw [poll.eq_def]
  split
  case h_4 => split <;> simp only [*]
  all_goals next h => cases hn.symm.trans h

/-! ### Two identities -/

theorem visit?_serve (first : Option Bytes) (request : TunnelRequest) (reply : Option Bytes) :
    ∃ visit, (c.serve resolve timeout first request reply).visit? = some visit ∧
      visit.first = first := by
  unfold serve
  split <;> exact ⟨_, rfl, rfl⟩

/-- A channel whose first binary message carries neither user's credentials goes on in the same way
for both, and nothing is looked up or dialed for it. -/
theorem poll_congr (id' : Identity)
    (h : ∀ v ∈ (c.poll id resolve timeout).visit?, ∀ bs ∈ v.first, Unknown id id' bs) :
    c.poll id' resolve timeout = c.poll id resolve timeout ∧
      ∀ v ∈ (c.poll id resolve timeout).visit?, v.dialed = none ∧ v.lookups = [] := by
  fun_induction poll id resolve timeout c with
  | case1 c hn => exact ⟨poll_of_broken hn, fun v hv => Option.some.inj hv ▸ ⟨rfl, rfl⟩⟩
  | case2 c receiver hn ih =>
    rw [poll_of_part hn]
    exact ih h
  | case3 c m receiver hn answered hs =>
    rw [poll_of_message hn, hs]
    exact ⟨rfl, fun v hv => Option.some.inj hv ▸ ⟨rfl, rfl⟩⟩
  | case4 c m receiver hn answered hs hskip ih =>
    -- A message that is skipped is no binary one, so no credentials are looked for in it.
    have hreact : Session.react id' (.message m) = .skip :=
      (Session.react_congr (by rw [Session.binary?_of_skip hskip]; nofun)).trans hskip
    rw [poll_of_message hn, hs, hreact]
    exact ih h
  | case5 c m receiver hn answered hs close hleave =>
    have hreact : Session.react id' (.message m) = .leave close :=
      (Session.react_congr (h _ rfl)).trans hleave
    rw [poll_of_message hn, hs, hreact]
    exact ⟨rfl, fun v hv => Option.some.inj hv ▸ ⟨rfl, rfl⟩⟩
  | case6 c m receiver hn answered hs request reply hserve =>
    -- The first message is served, so it would carry the user's credentials.
    obtain ⟨visit, hvisit, hfirst⟩ : ∃ visit,
        (answered.serve resolve timeout m.binary? request reply).visit? = some visit ∧
          visit.first = m.binary? := visit?_serve m.binary? request reply
    exact absurd hserve (Session.not_serve (hfirst ▸ h visit hvisit) request reply)
  | case7 c hn stream hr =>
    rw [poll_of_hungry hn, hr]
    exact ⟨rfl, nofun⟩
  | case8 c hn e stream hr | case9 c hn stream hr =>
    rw [poll_of_hungry hn, hr]
    exact ⟨rfl, fun v hv => Option.some.inj hv ▸ ⟨rfl, rfl⟩⟩
  | case10 c hn b bs stream hr ih =>
    rw [poll_of_hungry hn, hr]
    exact ih h

end OpenChannel

/-! ### The web side -/

/-- The service for another user, whose path is another one. -/
def Service.forUser (s : Service) (identity : Identity) (wsPath : List Char) : Service :=
  { s with config := { s.config with identity, wsPath } }

variable {s : Service} {identity : Identity} {wsPath : List Char}

/-- Only the subscription names the user. -/
theorem Service.site_forUser {r : Request}
    (h : r.target ≠ .path (Page.subscriptionPath s.config)) :
    (s.forUser identity wsPath).site r = s.site r := by
  have hpage : Page.ofTarget (s.forUser identity wsPath).config s.provider r.target =
      Page.ofTarget s.config s.provider r.target := by
    cases htarget : r.target with
    | path bs =>
      have hbs : bs ≠ Page.subscriptionPath s.config := fun hbs => h (hbs ▸ htarget)
      have hbs' : bs ≠ Page.subscriptionPath (s.forUser identity wsPath).config := hbs
      simp only [Page.ofTarget, if_neg hbs, if_neg hbs']
    | _ => rfl
  simp only [Service.site, WebAnswer.ofRequest]
  split
  · rfl
  · exact congrArg WebAnswer.page hpage

/-! ### Connections -/

namespace Connection

variable {σ : Type}

/-- Nothing on a connection gives away who knows the user: no request has asked for the subscription,
and no first message carries the credentials of one of the users. -/
structure Discreet (s : Service) (identity : Identity) (c : Connection σ) : Prop where
  asked : ∀ r ∈ c.asked, r.target ≠ .path (Page.subscriptionPath s.config)
  first : ∀ v ∈ c.visits, ∀ bs ∈ v.first, Unknown s.config.identity identity bs

/-- What a channel of the service can come to. -/
def Visited (σ : Type) [ByteStream σ] (s : Service) (visit : Visit) : Prop :=
  ∃ channel : OpenChannel (PrefixedStream (PrefixedStream σ)),
    (channel.poll s.config.identity s.resolve s.config.connectTimeout).visit? = some visit

variable [ByteStream σ]

/-- What is told about a connection is never taken back, and visits are what channels come to. -/
structure Extends (s : Service) (c c' : Connection σ) : Prop where
  asked : c.asked ⊆ c'.asked
  visits : c.visits ⊆ c'.visits
  visited : ∀ v ∈ c'.visits, v ∈ c.visits ∨ Visited σ s v

theorem Extends.of_eq {c c' : Connection σ} (hasked : c'.asked = c.asked)
    (hvisits : c'.visits = c.visits) : c.Extends s c' where
  asked := hasked ▸ List.Subset.refl _
  visits := hvisits ▸ List.Subset.refl _
  visited _ hv := .inl (hvisits ▸ hv)

theorem Extends.trans {c c' c'' : Connection σ} (h : c.Extends s c') (h' : c'.Extends s c'') :
    c.Extends s c'' where
  asked := List.Subset.trans h.asked h'.asked
  visits := List.Subset.trans h.visits h'.visits
  visited v hv := (h'.visited v hv).elim (h.visited v) .inr

theorem Discreet.of_extends {c c' : Connection σ} (h : c'.Discreet s identity)
    (hextends : c.Extends s c') : c.Discreet s identity :=
  ⟨fun r hr => h.asked r (hextends.asked hr), fun v hv => h.first v (hextends.visits hv)⟩

variable {first c : Connection σ}

theorem extends_hand (route : Route) (stream : PrefixedStream σ) :
    c.Extends s (c.hand route stream) :=
  .of_eq rfl rfl

theorem extends_expire : c.Extends s c.expire := by
  unfold expire
  split <;> exact .of_eq rfl rfl

theorem Extends.absorb (h : first.Extends s c) (stream : PrefixedStream σ) (taken : Bytes) :
    first.Extends s (c.absorb stream taken) := by
  fun_induction Connection.absorb c stream taken with
  | case1 | case2 | case3 => exact h.trans (.of_eq rfl rfl)
  | case4 _ _ _ _ _ _ ih => exact ih

theorem Extends.carry (h : first.Extends s c)
    (channel : OpenChannel (PrefixedStream (PrefixedStream σ))) :
    first.Extends s (c.carry s channel) := by
  refine h.trans ?_
  unfold Connection.carry
  cases hpoll : channel.poll s.config.identity s.resolve s.config.connectTimeout with
  | waiting _ => exact .of_eq rfl rfl
  | ended stream visit =>
    refine ⟨List.Subset.refl _, List.subset_append_left _ _, fun v hv => ?_⟩
    rcases List.mem_append.1 hv with hv | hv
    · exact .inl hv
    · exact .inr ⟨channel, List.mem_singleton.1 hv ▸ congrArg ChannelPoll.visit? hpoll⟩

/-- The requests that a conversation answers are told. -/
theorem extends_converse (stream : PrefixedStream σ) (talk : Conversation) :
    Extends s { c with asked := c.asked ++ (WebPoll.ofStream s.site stream talk).2 }
      (c.converse s stream talk) := by
  unfold Connection.converse
  dsimp only
  split
  · exact .of_eq rfl rfl
  · exact .of_eq rfl rfl
  · exact (Extends.of_eq rfl rfl).carry _

theorem Extends.converse (h : first.Extends s c) (stream : PrefixedStream σ)
    (talk : Conversation) : first.Extends s (c.converse s stream talk) := by
  have hasked : c.Extends s
      { c with asked := c.asked ++ (WebPoll.ofStream s.site stream talk).2 } :=
    ⟨List.subset_append_left _ _, List.Subset.refl _, fun _ => .inl⟩
  exact (h.trans hasked).trans (extends_converse stream talk)

theorem extends_route (stream : σ) : c.Extends s (c.route s stream) := by
  unfold route
  split
  · exact .of_eq rfl rfl
  · exact .of_eq rfl rfl
  · exact .of_eq rfl rfl
  · exact (extends_hand .web _).converse _ .start
  · next p _ =>
    have hhand : c.Extends s (c.hand .fallback p) := extends_hand .fallback p
    unfold fallBack
    dsimp only
    split
    · exact hhand.trans (.of_eq rfl rfl)
    · exact hhand.trans (.of_eq rfl rfl)
    · exact hhand.absorb p []

theorem extends_poll : c.Extends s (c.poll s) := by
  have hsame : c.Extends s c := .of_eq rfl rfl
  unfold poll
  split
  · exact extends_route _
  · exact hsame.absorb _ _
  · exact hsame.converse _ _
  · exact hsame.carry _
  · exact hsame

/-! ### Two users -/

theorem carry_forUser {channel : OpenChannel (PrefixedStream (PrefixedStream σ))}
    (h : (c.carry s channel).Discreet s identity) :
    c.carry (s.forUser identity wsPath) channel = c.carry s channel := by
  have hpoll : channel.poll identity s.resolve s.config.connectTimeout =
      channel.poll s.config.identity s.resolve s.config.connectTimeout := by
    refine (OpenChannel.poll_congr identity fun v hv => h.first v ?_).1
    unfold carry
    generalize channel.poll s.config.identity s.resolve s.config.connectTimeout = result at hv ⊢
    cases result with
    | waiting _ => cases hv
    | ended stream visit =>
      cases hv
      exact List.mem_append_right _ (List.mem_singleton_self _)
  exact congrArg c.afterChannel hpoll

theorem converse_forUser {stream : PrefixedStream σ} {talk : Conversation}
    (h : (c.converse s stream talk).Discreet s identity) :
    c.converse (s.forUser identity wsPath) stream talk = c.converse s stream talk := by
  have hstream : WebPoll.ofStream (s.forUser identity wsPath).site stream talk =
      WebPoll.ofStream s.site stream talk :=
    WebPoll.ofStream_congr fun r hr => Service.site_forUser
      (h.asked r ((extends_converse stream talk).asked (List.mem_append_right _ hr)))
  unfold converse at h ⊢
  rw [hstream]
  generalize WebPoll.ofStream s.site stream talk = answer at h ⊢
  obtain ⟨result, asked⟩ := answer
  cases result with
  | waiting stream talk => rfl
  | ended stream => rfl
  | channel stream inflates => exact carry_forUser h

theorem route_forUser {stream : σ} (h : (c.route s stream).Discreet s identity) :
    c.route (s.forUser identity wsPath) stream = c.route s stream := by
  unfold route at h ⊢
  split at h
  · rfl
  · rfl
  · rfl
  · exact converse_forUser h
  · rfl

/-- A connection on which nothing gives away the user goes on in the same way for both. -/
theorem poll_forUser (h : (c.poll s).Discreet s identity) :
    c.poll (s.forUser identity wsPath) = c.poll s := by
  unfold poll at h ⊢
  split at h
  · exact route_forUser h
  · rfl
  · exact converse_forUser h
  · exact carry_forUser h
  · rfl

end Connection

/-! ### Runs -/

namespace Rehearsal

variable {r : Rehearsal}

def forUser (r : Rehearsal) (identity : Identity) (wsPath : List Char) : Rehearsal :=
  { r with service := r.service.forUser identity wsPath }

theorem extends_wait (ms : Nat) :
    (r.connection.poll r.service).Extends r.service (r.wait ms).connection := by
  have hexpire : ∀ (b : Bool) (c : Connection Wire),
      c.Extends r.service (if b then c.expire else c) := fun b c => by
    cases b with
    | true => exact Connection.extends_expire
    | false => exact .of_eq rfl rfl
  exact (hexpire (r.expiresBefore (r.clock + 1)) _).trans
    (hexpire (r.settle.expiresBefore (r.clock + ms)) _)

theorem extends_move (m : ClientMove) :
    r.connection.Extends r.service (r.move m).connection := by
  rcases m.wait_or_not with ⟨ms, rfl⟩ | hm
  · exact Connection.extends_poll.trans (extends_wait ms)
  · obtain ⟨w, hmove, -⟩ := connection_move hm r
    rw [hmove]
    exact .of_eq rfl rfl

theorem extends_run (moves : List ClientMove) :
    r.connection.Extends r.service (run moves r).connection := by
  induction moves generalizing r with
  | nil => exact .of_eq rfl rfl
  | cons m moves ih =>
    have hmoves := ih (r := r.move m)
    rw [service_move] at hmoves
    exact (extends_move m).trans hmoves

theorem wait_forUser {ms : Nat} (h : (r.wait ms).connection.Discreet r.service identity) :
    (r.forUser identity wsPath).wait ms = (r.wait ms).forUser identity wsPath := by
  have hpoll : r.connection.poll (r.service.forUser identity wsPath) =
      r.connection.poll r.service := Connection.poll_forUser (h.of_extends (extends_wait ms))
  simp only [forUser, wait, settle, elapse, hpoll]
  rfl

theorem move_forUser {m : ClientMove} (h : (r.move m).connection.Discreet r.service identity) :
    (r.forUser identity wsPath).move m = (r.move m).forUser identity wsPath := by
  rcases m.wait_or_not with ⟨ms, rfl⟩ | hm
  · exact wait_forUser h
  · rw [forUser, forUser, service_move]
    exact move_withService hm _ r

theorem run_forUser {moves : List ClientMove}
    (h : (run moves r).connection.Discreet r.service identity) :
    run moves (r.forUser identity wsPath) = (run moves r).forUser identity wsPath := by
  induction moves generalizing r with
  | nil => rfl
  | cons m moves ih =>
    have hservice := service_move m r
    have hmove := h.of_extends (hservice ▸ extends_run (r := r.move m) moves)
    rw [run_cons, run_cons, move_forUser hmove]
    exact ih (hservice ▸ h)

/-- A session to which nobody has presented credentials has looked nothing up and dialed nothing. -/
theorem idle_of_discreet {s : Service} {moves : List ClientMove} {v : Visit}
    (h : (run moves (start s .idle)).connection.Discreet s identity)
    (hv : v ∈ (run moves (start s .idle)).connection.visits) :
    v.dialed = none ∧ v.lookups = [] := by
  -- There were no visits at the start, so this one is what a channel came to.
  rcases (extends_run (r := start s .idle) moves).visited v hv with hv' | ⟨channel, hvisit⟩
  · cases hv'
  · refine (OpenChannel.poll_congr identity fun v' hv' => ?_).2 v hvisit
    cases hvisit.symm.trans hv'
    exact h.first v hv

/-- **A stranger learns nothing about the user.** When no request has asked for the subscription and no
first message carries the credentials of one of two users, a connection is the same for both of them
all the time: it is given to the same side, the same bytes are written and it is closed at the same
time; and nothing is looked up or dialed for it. -/
theorem learns_nothing (s : Service) (identity : Identity) (wsPath : List Char)
    (moves : List ClientMove)
    (h : (run moves (start s .idle)).connection.Discreet s identity) (n : Nat) :
    (run (moves.take n) (start (s.forUser identity wsPath) .idle)).connection =
        (run (moves.take n) (start s .idle)).connection ∧
      (run (moves.take n) (start s .idle)).connection.lookups = [] ∧
      ∀ v ∈ (run (moves.take n) (start s .idle)).connection.visits, v.dialed = none := by
  have hprefix : (run (moves.take n) (start s .idle)).connection.Discreet s identity := by
    have hrest := extends_run (r := run (moves.take n) (start s .idle)) (moves.drop n)
    rw [← run_append, List.take_append_drop, service_run] at hrest
    exact h.of_extends hrest
  have hsame : run (moves.take n) (start (s.forUser identity wsPath) .idle) =
      (run (moves.take n) (start s .idle)).forUser identity wsPath :=
    run_forUser (r := start s .idle) hprefix
  refine ⟨by rw [hsame]; rfl, ?_, fun v hv => ?_⟩
  · exact List.flatMap_eq_nil_iff.2 fun v hv => (idle_of_discreet hprefix hv).2
  · exact (idle_of_discreet hprefix hv).1

/-! ### First bytes -/

def sampleIdentity : Identity :=
  ⟨"00000000000000000000000000000001".toList, List.replicate 15 0 ++ [1], by decide⟩

def otherIdentity : Identity :=
  ⟨"00000000000000000000000000000002".toList, List.replicate 15 0 ++ [2], by decide⟩

/-- A service with a subscription at `/a`. -/
def sampleService : Service where
  config :=
    { identity := sampleIdentity, domain := [], wsPath := [], subPath := ['a'], name := [],
      listenIp := .v4 (List.replicate 4 0) List.length_replicate, listenTcp := 1,
      cdnHost := [], cdnTcp := 1,
      fallback := none, connectTimeout := 1, sniffTimeout := none, dohUrl := [], geoipUrl := [] }
  provider := []
  resolve := id
  fallback := .close

/-- The conversation that has taken these bytes first. -/
def firstTalk (bs : Bytes) : Conversation :=
  { Conversation.start.makeRoom with
    unread := bs, intake := Conversation.start.makeRoom.intake.record bs.length }

/-- A client whose first byte is one of HTTP is served. -/
theorem connection_of_first {b : UInt8} {bs : Bytes} (hweb : Route.ofByte b = .web)
    (hlength : (b :: bs).length ≤ sniffSize) :
    (run [.send (b :: bs), .wait 0] (start sampleService .idle)).connection =
      (Connection.start { Wire.idle with sent := b :: bs }).serve sampleService
        ⟨b :: bs, Wire.idle⟩ := by
  have hread : ByteStream.read sniffSize { Wire.idle with sent := b :: bs } =
      (.ready (b :: bs), Wire.idle) := by
    show (Poll.ready (List.take sniffSize (b :: bs)),
      { Wire.idle with sent := List.drop sniffSize (b :: bs) }) = _
    rw [List.take_of_length_le hlength, List.drop_of_length_le hlength]
    rfl
  have hsniff : sniff { Wire.idle with sent := b :: bs } = .routed .web ⟨b :: bs, Wire.idle⟩ := by
    rw [sniff, hread]
    dsimp only
    rw [hweb]
  show (Connection.start { Wire.idle with sent := b :: bs }).route sampleService
    { Wire.idle with sent := b :: bs } = _
  rw [Connection.route, hsniff]

/-- All that was put back is read at once, if there is room for it. -/
theorem read_putBack {σ : Type} [ByteStream σ] (s : σ) {n : Nat} {b : UInt8} {bs : Bytes}
    (h : (b :: bs).length ≤ n) :
    ByteStream.read n (⟨b :: bs, s⟩ : PrefixedStream σ) = (.ready (b :: bs), ⟨[], s⟩) := by
  show (Poll.ready (List.take n (b :: bs)), (⟨List.drop n (b :: bs), s⟩ : PrefixedStream σ)) = _
  rw [List.take_of_length_le h, List.drop_of_length_le h]

/-- A client that stays takes all that is written. -/
theorem exists_writeAll_idle (bs : Bytes) :
    ∃ s', writeAll bs (⟨[], Wire.idle⟩ : PrefixedStream Wire) = (.done, s') := by
  cases bs with
  | nil => exact ⟨_, by rw [writeAll]⟩
  | cons b bs => exact ⟨_, writeAll_of_ready (List.cons_ne_nil b bs) rfl⟩

/-! ### A visit to the root -/

/-- The bytes `GET / HTTP/1.1` and an empty line. -/
def rootBytes : Bytes :=
  [71, 69, 84, 32, 47, 32, 72, 84, 84, 80, 47, 49, 46, 49, 13, 10, 13, 10]

def rootRequest : Request :=
  ⟨"GET".toList, .path Page.rootPath, .http11, [], .empty, false⟩

/-- The conversation when its request waits to be answered. -/
def rootWait : Conversation :=
  ((firstTalk rootBytes).begin rootRequest []).go (.answer rootRequest) []

theorem ofStream_rootBytes :
    ∃ stream, WebPoll.ofStream sampleService.site
      (⟨rootBytes, Wire.idle⟩ : PrefixedStream Wire) .start = (.ended stream, [rootRequest]) := by
  have hread : (firstTalk rootBytes).nextRequest = .request rootRequest [] := by decide +kernel
  have htake : Conversation.start.makeRoom.take sampleService.site rootBytes =
      ⟨rootWait, [], .more, []⟩ := Conversation.advance_of_request rfl hread rfl
  have hwaiting : WebPoll.settle (⟨[], Wire.idle⟩ : PrefixedStream Wire) ⟨rootWait, [], .more, []⟩ =
      .waiting ⟨[], Wire.idle⟩ rootWait := by
    rw [WebPoll.settle, writeAll]
  have hchunk : ByteStream.read Conversation.start.makeRoom.room
      (⟨rootBytes, Wire.idle⟩ : PrefixedStream Wire) = (.ready rootBytes, ⟨[], Wire.idle⟩) := rfl
  have hsilence : ByteStream.read rootWait.makeRoom.room (⟨[], Wire.idle⟩ : PrefixedStream Wire) =
      (.pending, ⟨[], Wire.idle⟩) := rfl
  obtain ⟨stream, hended⟩ := WebPoll.settle_of_ended (⟨[], Wire.idle⟩ : PrefixedStream Wire)
    (by decide +kernel : (rootWait.makeRoom.pause sampleService.site).outlook = .ended)
  have hlast : WebPoll.ofStream sampleService.site (⟨[], Wire.idle⟩ : PrefixedStream Wire)
      rootWait = (.ended stream, [rootRequest]) := by
    rw [WebPoll.ofStream_of_pending hsilence, WebPoll.last, hended]
    rfl
  rw [rootBytes] at htake
  refine ⟨stream, ?_⟩
  rw [WebPoll.ofStream_of_chunk hchunk, htake, hwaiting]
  dsimp only
  rw [hlast]
  rfl

theorem discreet_rootVisit :
    (run [.send rootBytes, .wait 0] (start sampleService .idle)).connection.Discreet
      sampleService otherIdentity := by
  obtain ⟨stream, hstream⟩ := ofStream_rootBytes
  have hrun : (run [.send rootBytes, .wait 0] (start sampleService .idle)).connection = _ :=
    connection_of_first rfl (by decide)
  rw [rootBytes] at hstream
  rw [hrun, Connection.serve, Connection.converse, hstream]
  refine ⟨fun r hr => ?_, nofun⟩
  obtain rfl : r = rootRequest := List.mem_singleton.1 hr
  decide

/-! ### A channel that a stranger opens -/

/-- A request that is granted a channel, with frames behind it. -/
theorem ofStream_of_granted {site : Request → WebAnswer} {b : UInt8} {bs frames : Bytes}
    {r : Request} {inflates : Bool}
    (hlength : (b :: bs).length ≤ Conversation.start.makeRoom.room)
    (hread : (firstTalk (b :: bs)).nextRequest = .request r frames)
    (hbody : Body.ofFraming r.framing = none) (hframes : frames ≠ [])
    (hanswer : (((firstTalk (b :: bs)).begin r frames).answer site r).2 = .channel inflates) :
    ∃ stream, WebPoll.ofStream site (⟨b :: bs, Wire.idle⟩ : PrefixedStream Wire) .start =
      (.channel ⟨frames, stream⟩ inflates, [r]) := by
  have hstage : ((firstTalk (b :: bs)).begin r frames).stage = .answer r := by
    simp only [Conversation.begin, Conversation.lend, Conversation.go, Conversation.firstStage, hbody]
  have htake : Conversation.start.makeRoom.take site (b :: bs) =
      ⟨((firstTalk (b :: bs)).begin r frames).go .head frames,
        (((firstTalk (b :: bs)).begin r frames).answer site r).1, .channel inflates, [r]⟩ := by
    have hunread : ((firstTalk (b :: bs)).begin r frames).unread = frames := rfl
    show Conversation.advance site (firstTalk (b :: bs)) = _
    rw [Conversation.advance_head rfl, hread]
    dsimp only
    have hgranted : Outlook.channel inflates ≠ .more := by simp
    rw [Conversation.advance_answer hstage, hunread, if_neg hframes, hanswer, if_neg hgranted]
  obtain ⟨stream, hwrite⟩ := exists_writeAll_idle
    (((firstTalk (b :: bs)).begin r frames).answer site r).1
  refine ⟨stream, ?_⟩
  rw [WebPoll.ofStream_of_chunk (read_putBack Wire.idle hlength), htake, WebPoll.settle, hwrite]
  rfl

/-- A first message without credentials is the end of a channel. -/
theorem poll_of_refused {id : Identity} {resolve : List Char → List Char} {timeout : UInt64}
    {b : UInt8} {bs message : Bytes} {receiver : Receiver} {stream : PrefixedStream Wire}
    (hlength : (b :: bs).length ≤ OpenChannel.chunkSize)
    (hnext : (Receiver.mk (b :: bs) none).next = .message (.binary message) receiver)
    (hmessage : authenticate id message = none) :
    (OpenChannel.start (⟨b :: bs, stream⟩ : PrefixedStream (PrefixedStream Wire)) false).poll id
      resolve timeout = .ended ⟨[], stream⟩ ⟨some message, none, []⟩ := by
  have hread : (OpenChannel.start (⟨b :: bs, stream⟩ : PrefixedStream (PrefixedStream Wire))
      false).stream.read OpenChannel.chunkSize =
        (.ready (b :: bs), .make ⟨[], stream⟩ false) := by
    have hfront := read_putBack stream hlength
    show ((ByteStream.read OpenChannel.chunkSize (⟨b :: bs, stream⟩ : PrefixedStream _)).1,
      InflateStream.make
        (ByteStream.read OpenChannel.chunkSize (⟨b :: bs, stream⟩ : PrefixedStream _)).2 false) = _
    rw [hfront]
  have hhungry : (OpenChannel.start (⟨b :: bs, stream⟩ : PrefixedStream (PrefixedStream Wire))
      false).receiver.next = .hungry := rfl
  rw [OpenChannel.poll_of_hungry hhungry, hread]
  dsimp only
  rw [OpenChannel.poll_of_message hnext, Session.react_of_binary hmessage]
  rfl

def strangerHead : Bytes :=
  Bytes.ofString ("GET / HTTP/1.1\r\nupgrade: websocket\r\nsec-websocket-version: 13\r\n" ++
    "sec-websocket-key: dGhlIHNhbXBsZSBub25jZQ==\r\n\r\n")

def strangerRequest : Request :=
  ⟨"GET".toList, .path Page.rootPath, .http11,
    [⟨"upgrade".toList, Bytes.ofString "websocket"⟩,
      ⟨"sec-websocket-version".toList, Bytes.ofString "13"⟩,
      ⟨"sec-websocket-key".toList, Bytes.ofString "dGhlIHNhbXBsZSBub25jZQ=="⟩], .empty, true⟩

/-- What a third user would send to be connected with TCP number 80 of the address 127.0.0.1. -/
def strangerMessage : Bytes :=
  0 :: List.replicate 15 0 ++ [3, 0, 1, 0, 80, 1, 127, 0, 0, 1]

def strangerFrame : Bytes :=
  maskedFrame Opcode.binary strangerMessage

theorem unknown_strangerMessage : Unknown sampleIdentity otherIdentity strangerMessage := by
  constructor <;> decide +kernel

/-- What is left of a stranger's channel. -/
theorem visits_of_stranger :
    let c := (run [.send (strangerHead ++ strangerFrame), .wait 0]
      (start sampleService .idle)).connection
    c.asked = [strangerRequest] ∧ c.visits = [⟨some strangerMessage, none, []⟩] := by
  obtain ⟨bs, hbytes⟩ : ∃ bs, strangerHead ++ strangerFrame = 71 :: bs :=
    ⟨(strangerHead ++ strangerFrame).tail, by decide +kernel⟩
  obtain ⟨frame, hframe⟩ : ∃ frame, strangerFrame = 130 :: frame :=
    ⟨strangerFrame.tail, by decide +kernel⟩
  have hlength : (strangerHead ++ strangerFrame).length ≤ sniffSize := by decide +kernel
  have hroom : (strangerHead ++ strangerFrame).length ≤ Conversation.start.makeRoom.room := by
    decide +kernel
  have hread : (firstTalk (strangerHead ++ strangerFrame)).nextRequest =
      .request strangerRequest strangerFrame := by decide +kernel
  have hanswer : (((firstTalk (strangerHead ++ strangerFrame)).begin strangerRequest
      strangerFrame).answer sampleService.site strangerRequest).2 = .channel false := by
    decide +kernel
  have hchunk : strangerFrame.length ≤ OpenChannel.chunkSize := by decide +kernel
  have hnext : (Receiver.mk strangerFrame none).next =
      .message (.binary strangerMessage) ⟨[], none⟩ := by decide +kernel
  rw [hbytes] at hlength hroom hread hanswer ⊢
  rw [hframe] at hchunk hnext hread hanswer
  obtain ⟨stream, hstream⟩ := ofStream_of_granted hroom hread rfl (List.cons_ne_nil _ _) hanswer
  have hcarry (c : Connection Wire) : c.carry sampleService (.start ⟨130 :: frame, stream⟩ false) =
      c.afterChannel (.ended ⟨[], stream⟩ ⟨some strangerMessage, none, []⟩) :=
    congrArg c.afterChannel (poll_of_refused hchunk hnext unknown_strangerMessage.1)
  dsimp only
  rw [connection_of_first rfl hlength, Connection.serve, Connection.converse, hstream]
  dsimp only
  rw [hcarry]
  exact ⟨rfl, rfl⟩

theorem discreet_strangerVisit :
    (run [.send (strangerHead ++ strangerFrame), .wait 0]
      (start sampleService .idle)).connection.Discreet sampleService otherIdentity := by
  obtain ⟨hasked, hvisits⟩ := visits_of_stranger
  constructor
  · intro r hr
    rw [hasked] at hr
    obtain rfl := List.mem_singleton.1 hr
    decide
  · intro v hv bs hbs
    rw [hvisits] at hv
    obtain rfl := List.mem_singleton.1 hv
    cases hbs
    exact unknown_strangerMessage

/-- So it is for a client that asks for the root, and for one whose channel is refused at its first
message. -/
theorem learns_nothing_of_strangers :
    let root : List ClientMove := [.send rootBytes, .wait 0]
    let channel : List ClientMove := [.send (strangerHead ++ strangerFrame), .wait 0]
    ((run root (start sampleService .idle)).connection.Discreet sampleService otherIdentity ∧
      (run root (start (sampleService.forUser otherIdentity ['b']) .idle)).connection =
        (run root (start sampleService .idle)).connection) ∧
    (run channel (start sampleService .idle)).connection.Discreet sampleService otherIdentity ∧
      (run channel (start sampleService .idle)).connection.visits =
        [⟨some strangerMessage, none, []⟩] ∧
      (run channel (start (sampleService.forUser otherIdentity ['b']) .idle)).connection =
        (run channel (start sampleService .idle)).connection :=
  ⟨⟨discreet_rootVisit,
      (learns_nothing sampleService otherIdentity ['b'] _ discreet_rootVisit 2).1⟩,
    discreet_strangerVisit, visits_of_stranger.2,
    (learns_nothing sampleService otherIdentity ['b'] _ discreet_strangerVisit 2).1⟩

end Rehearsal

end Switchyard
