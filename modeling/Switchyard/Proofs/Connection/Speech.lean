import Switchyard.Proofs.Connection.Secrecy
import Switchyard.Proofs.Stream.Writing
import Switchyard.Proofs.Web.Speaking

/-!
# What a connection says

What is written for a client stays until the client takes it. What it hears on the web side are the
words of a conversation and, behind one that opens a channel, frames (`Connection.Said`): at any time,
whatever the client does.
-/

namespace Switchyard

open ByteStream (Records)

/-! ### Wires -/

namespace Wire

theorem written_read (n : Nat) (w : Wire) :
    (ByteStream.read n w).2.written = w.written ∧ (ByteStream.read n w).2.gone = w.gone := by
  simp only [ByteStream.read, read]
  repeat' split
  all_goals exact ⟨rfl, rfl⟩

theorem records : Records Wire.written where
  read n w := (w.written_read n).1
  write bs w := by
    cases hgone : w.gone with
    | true => exact .inr ⟨brokenPipe, w, by simp [ByteStream.write, write, hgone], rfl⟩
    | false => exact .inl ⟨_, by simp [ByteStream.write, write, hgone]; rfl, rfl⟩

end Wire

namespace PrefixedStream

variable (p : PrefixedStream Wire)

theorem written_read (n : Nat) :
    (ByteStream.read n p).2.inner.written = p.inner.written ∧
      (ByteStream.read n p).2.inner.gone = p.inner.gone := by
  simp only [ByteStream.read, read]
  split
  · exact Wire.written_read n p.inner
  · exact ⟨rfl, rfl⟩

/-- The stream when these bytes were written to its client. -/
def tell (bs : Bytes) : PrefixedStream Wire :=
  { p with inner := { p.inner with written := p.inner.written ++ bs } }

/-- Either all bytes are there for the client, or none because it has gone. -/
theorem writeAll_cases (bs : Bytes) :
    writeAll bs p = (.done, p.tell bs) ∨
      bs ≠ [] ∧ p.inner.gone = true ∧ writeAll bs p = (.failed Wire.brokenPipe, p) := by
  by_cases hne : bs = []
  · subst hne
    rw [writeAll, tell, List.append_nil]
    exact .inl rfl
  · cases hgone : p.inner.gone with
    | true =>
      refine .inr ⟨hne, rfl, writeAll_of_failed hne ?_⟩
      simp [ByteStream.write, pass, Wire.write, hgone]
    | false =>
      refine .inl (writeAll_of_ready hne ?_)
      simp [ByteStream.write, pass, Wire.write, hgone, tell]

end PrefixedStream

/-! ### Conversations -/

namespace WebPoll

/-- The stream on which a conversation has come so far. -/
def stream {σ : Type} : WebPoll σ → σ
  | waiting stream _ | ended stream => stream
  | channel stream _ => stream.inner

/-- A conversation that has come so far has said these words. -/
def Has {σ : Type} (site : Request → WebAnswer) (asked : List Request) (words : List Word) :
    WebPoll σ → Prop
  | waiting _ c => c.Has site asked words
  | ended _ => Spoken site asked words .ended
  | channel _ inflates => Spoken site asked words (.channel inflates)

variable {site : Request → WebAnswer} {asked : List Request} {words : List Word}

/-- A step's words are heard, or the client has gone and nothing more is said. -/
theorem has_settle {step : ConversationStep} (h : step.Adds site asked words)
    (p : PrefixedStream Wire) :
    ∃ new, (settle p step).stream.inner.written = p.inner.written ++ new.flatMap Word.bytes ∧
      (settle p step).Has site (asked ++ step.asked) (words ++ new) := by
  obtain ⟨hmore, new, houtput, hhas⟩ := h
  unfold settle
  rcases p.writeAll_cases step.output with hdone | ⟨hne, -, hfailed⟩
  · refine ⟨new, ?_⟩
    rw [hdone, ← houtput]
    unfold ConversationStep.Has at hhas
    dsimp only
    cases hbehind : step.outlook <;> rw [hbehind] at hhas <;> exact ⟨rfl, hhas⟩
  · rw [hfailed]
    refine ⟨[], (List.append_nil _).symm, ?_⟩
    rw [List.append_nil]
    exact (hmore hne).dropped step.asked

theorem stage_of_settle {step : ConversationStep} {p p' : PrefixedStream Wire} {c : Conversation}
    (h : settle p step = .waiting p' c) : step.outlook = .more ∧ c = step.conversation := by
  unfold settle at h
  split at h
  · split at h
    · next hmore =>
      cases h
      exact ⟨hmore, rfl⟩
    · cases h
    · cases h
  · cases h

/-- What a conversation says before it waits again, is over or becomes a channel. -/
theorem has_ofStream {c : Conversation} (h : c.Has site asked words) (p : PrefixedStream Wire) :
    (∃ new, (ofStream site p c).1.stream.inner.written =
        p.inner.written ++ new.flatMap Word.bytes ∧
      (ofStream site p c).1.Has site (asked ++ (ofStream site p c).2) (words ++ new)) ∧
    ∀ p' c', (ofStream site p c).1 = .waiting p' c' → c'.stage = .head := by
  fun_induction ofStream site p c generalizing asked words with
  | case1 p c behind hr =>
    have hwritten := (p.written_read c.makeRoom.room).1
    rw [hr] at hwritten
    have hadds := Conversation.adds_pause h.makeRoom
    refine ⟨hwritten ▸ has_settle hadds behind, fun p' c' hwaiting => ?_⟩
    obtain ⟨hmore, rfl⟩ := stage_of_settle hwaiting
    exact Conversation.stage_pause hmore
  | case2 p c e behind hr | case3 p c behind hr =>
    have hwritten := (p.written_read c.makeRoom.room).1
    rw [hr] at hwritten
    obtain ⟨hadds, hmore⟩ := Conversation.adds_stop h.makeRoom
    refine ⟨hwritten ▸ has_settle hadds behind, fun p' c' hwaiting => ?_⟩
    exact absurd (stage_of_settle hwaiting).1 hmore
  | case4 p c b bs behind hr step p' c' hs result asked' hrest =>
    rename_i ih
    have hwritten := (p.written_read c.makeRoom.room).1
    rw [hr] at hwritten
    obtain ⟨new, hnew, hhas⟩ := has_settle (Conversation.adds_take h.makeRoom (b :: bs)) behind
    rw [hs] at hnew hhas
    obtain ⟨⟨new', hnew', hhas'⟩, hstage⟩ := ih hhas
    rw [hrest] at hnew' hhas' hstage
    refine ⟨⟨new ++ new', ?_, ?_⟩, hstage⟩
    · dsimp only [stream] at hnew hnew' ⊢
      rw [hnew', hnew, hwritten, List.flatMap_append, List.append_assoc]
    · rwa [List.append_assoc, List.append_assoc] at hhas'
  | case5 p c b bs behind hr step p' | case6 p c b bs behind hr step p' inflates =>
    rename_i hs
    have hwritten := (p.written_read c.makeRoom.room).1
    rw [hr] at hwritten
    have hsettle := has_settle (Conversation.adds_take h.makeRoom (b :: bs)) behind
    rw [hs, hwritten] at hsettle
    refine ⟨hsettle, fun _ _ hwaiting => ?_⟩
    cases hwaiting

end WebPoll

/-! ### Channels -/

/-- Frames as a server sends them, one after the other. -/
inductive AreFrames : Bytes → Prop
  | nil : AreFrames []
  | cons (opcode : UInt8) (payload : Bytes) {rest} : AreFrames rest →
      AreFrames (plainFrame opcode payload ++ rest)

theorem AreFrames.append {bs bs' : Bytes} (h : AreFrames bs) (h' : AreFrames bs') :
    AreFrames (bs ++ bs') := by
  induction h with
  | nil => exact h'
  | cons opcode payload _ ih =>
    rw [List.append_assoc]
    exact .cons opcode payload ih

theorem areFrames_plainFrame (opcode : UInt8) (payload : Bytes) :
    AreFrames (plainFrame opcode payload) :=
  List.append_nil (plainFrame opcode payload) ▸ .cons opcode payload .nil

theorem Message.areFrames_reply (m : Message) : ∀ bs ∈ m.reply, AreFrames bs := by
  intro bs hbs
  cases m with
  | ping payload | close frame =>
    cases hbs
    exact areFrames_plainFrame _ _
  | binary | text | pong => cases hbs

/-- Frames were written. -/
def AddsFrames (before after : Bytes) : Prop :=
  ∃ frames, after = before ++ frames ∧ AreFrames frames

theorem AddsFrames.of_eq {before after : Bytes} (h : after = before) : AddsFrames before after :=
  ⟨[], h.trans (List.append_nil before).symm, .nil⟩

theorem AddsFrames.trans {a b c : Bytes} (h : AddsFrames a b) (h' : AddsFrames b c) :
    AddsFrames a c := by
  obtain ⟨frames, rfl, hframes⟩ := h
  obtain ⟨frames', rfl, hframes'⟩ := h'
  exact ⟨frames ++ frames', List.append_assoc _ _ _, hframes.append hframes'⟩

/-- The stream on which a channel has come so far. -/
def ChannelPoll.stream {σ : Type} : ChannelPoll σ → σ
  | waiting c => c.stream.inner
  | ended stream _ => stream

namespace OpenChannel

variable {σ : Type} [ByteStream σ] {view : σ → Bytes} {id : Identity}
  {resolve : List Char → List Char} {timeout : UInt64}

theorem frames_send (h : Records view) {frame : Option Bytes} (hframe : ∀ bs ∈ frame, AreFrames bs)
    (c : OpenChannel σ) :
    AddsFrames (view c.stream.inner) (view (c.send frame).2.stream.inner) := by
  cases frame with
  | none => exact .of_eq rfl
  | some bs =>
    rcases h.writeAll bs c.stream.inner with hwritten | hnothing
    · exact ⟨bs, hwritten, hframe bs rfl⟩
    · exact .of_eq hnothing

theorem expander_send (frame : Option Bytes) (c : OpenChannel σ) :
    (c.send frame).2.stream.expander = c.stream.expander := by
  cases frame <;> rfl

theorem frames_serve (h : Records view) (first : Option Bytes) (request : TunnelRequest)
    (reply : Option Bytes) (c : OpenChannel σ) :
    AddsFrames (view c.stream.inner)
      (view (c.serve resolve timeout first request reply).stream) := by
  have hreply : ∀ bs ∈ reply.map (plainFrame Opcode.binary), AreFrames bs := by
    intro bs hbs
    obtain ⟨payload, -, rfl⟩ := Option.map_eq_some_iff.1 hbs
    exact areFrames_plainFrame _ payload
  have hsend := frames_send h hreply c
  unfold serve
  split <;> (next hs => rw [hs] at hsend; exact hsend)

omit [ByteStream σ] in
/-- Messages are expanded if it is asked for. -/
theorem isSome_expander_start (stream : σ) (inflates : Bool) :
    (start stream inflates).stream.expander.isSome = inflates := by
  cases inflates <;> rfl

variable (id resolve timeout) in
/-- A channel that goes on writes frames, and expands messages if it did before. -/
theorem frames_poll (h : Records view) (c : OpenChannel σ) :
    AddsFrames (view c.stream.inner) (view (c.poll id resolve timeout).stream) ∧
      ∀ c', c.poll id resolve timeout = .waiting c' →
        c'.stream.expander.isSome = c.stream.expander.isSome := by
  fun_induction poll id resolve timeout c with
  | case1 c hn => exact ⟨.of_eq rfl, fun c' hwaiting => by cases hwaiting⟩
  | case2 c receiver hn ih => exact ih
  | case3 c m receiver hn answered hs =>
    have hsend := frames_send h m.areFrames_reply { c with receiver }
    rw [hs] at hsend
    exact ⟨hsend, fun c' hwaiting => by cases hwaiting⟩
  | case4 c m receiver hn answered hs hskip ih =>
    have hsend := frames_send h m.areFrames_reply { c with receiver }
    have hexpander := expander_send m.reply { c with receiver }
    rw [hs] at hsend hexpander
    rw [hexpander] at ih
    exact ⟨hsend.trans ih.1, ih.2⟩
  | case5 c m receiver hn answered hs close hleave =>
    have hsend := frames_send h m.areFrames_reply { c with receiver }
    rw [hs] at hsend
    exact ⟨hsend, fun c' hwaiting => by cases hwaiting⟩
  | case6 c m receiver hn answered hs request reply hserve =>
    have hsend := frames_send h m.areFrames_reply { c with receiver }
    rw [hs] at hsend
    refine ⟨hsend.trans (frames_serve h m.binary? request reply answered), fun c' hwaiting => ?_⟩
    unfold serve at hwaiting
    split at hwaiting <;> cases hwaiting
  | case7 c hn stream hr =>
    have hread := h.readInflated chunkSize c.stream
    have hexpander := c.stream.isSome_expander_read chunkSize
    rw [hr] at hread hexpander
    refine ⟨.of_eq hread, fun c' hwaiting => ?_⟩
    cases hwaiting
    exact hexpander
  | case8 c hn e stream hr | case9 c hn stream hr =>
    have hread := h.readInflated chunkSize c.stream
    rw [hr] at hread
    exact ⟨.of_eq hread, fun c' hwaiting => by cases hwaiting⟩
  | case10 c hn b bs stream hr ih =>
    have hread := h.readInflated chunkSize c.stream
    have hexpander := c.stream.isSome_expander_read chunkSize
    rw [hr] at hread hexpander
    exact ⟨(AddsFrames.of_eq hread).trans ih.1, fun c' hwaiting => (ih.2 c' hwaiting).trans hexpander⟩

end OpenChannel

/-! ### Connections -/

/-- The web side is at work. -/
def Phase.isWeb {σ : Type} : Phase σ → Bool
  | conversing .. | channel _ => true
  | sniffing _ | absorbing _ | closed _ => false

namespace Connection

/-- What a client has heard on a connection: words of the web side, and frames of a channel. -/
inductive Said (s : Service) (c : Connection Wire) : List Word → Bytes → Prop
  /-- The web side has not answered anything. -/
  | silent : c.phase.isWeb = false → c.asked = [] → c.visits = [] → Said s c [] []
  | conversing {stream talk words} : c.phase = .conversing stream talk → talk.stage = .head →
      talk.Has s.site c.asked words → c.visits = [] → Said s c words []
  | channel {channel words frames} : c.phase = .channel channel →
      Spoken s.site c.asked words (.channel channel.stream.expander.isSome) → c.visits = [] →
      AreFrames frames → Said s c words frames
  | ended {stream words} : c.phase = .closed stream → Spoken s.site c.asked words .ended →
      c.visits = [] → Said s c words []
  | visited {stream words inflates visit frames} : c.phase = .closed stream →
      Spoken s.site c.asked words (.channel inflates) → c.visits = [visit] →
      AreFrames frames → Said s c words frames

/-- A client has heard these bytes. -/
def Heard (s : Service) (c : Connection Wire) (bs : Bytes) : Prop :=
  ∃ words frames, bs = words.flatMap Word.bytes ++ frames ∧ c.Said s words frames

/-- A connection is written to from here on, and then a client has heard it all. -/
def Tells (s : Service) (written bs : Bytes) (c : Connection Wire) : Prop :=
  ∃ more, c.phase.stream.written = written ++ more ∧ c.Heard s (bs ++ more)

variable {s : Service} {c : Connection Wire} {words : List Word}

/-- What stands behind the words that a client has heard: a session and its frames behind the answer
that opens a channel, and nothing behind the last word. -/
structure Behind (c : Connection Wire) (frames : Bytes) (behind : Outlook) : Prop where
  sessions_le : c.phase.sessions + c.visits.length ≤ 1
  opened : 0 < c.phase.sessions + c.visits.length ∨ frames ≠ [] →
    ∃ inflates, behind = .channel inflates ∧
      ∀ channel, c.phase = .channel channel → channel.stream.expander.isSome = inflates
  areFrames : AreFrames frames
  ended : behind = .ended → c.phase.isClosed = true ∧ frames = []

theorem Behind.of_silent {behind : Outlook} (hsessions : c.phase.sessions = 0)
    (hvisits : c.visits = []) (hended : behind = .ended → c.phase.isClosed = true) :
    c.Behind [] behind := by
  have hnone : c.phase.sessions + c.visits.length = 0 := by rw [hsessions, hvisits]; rfl
  refine ⟨hnone ▸ Nat.zero_le 1, ?_, .nil, fun h => ⟨hended h, rfl⟩⟩
  rw [hnone]
  exact fun h => absurd rfl (h.resolve_left (Nat.lt_irrefl 0))

theorem Said.exists_behind {frames : Bytes} (h : c.Said s words frames) :
    ∃ behind, Spoken s.site c.asked words behind ∧ c.Behind frames behind := by
  cases h with
  | silent hweb hasked hvisits =>
    refine ⟨.more, hasked ▸ .silent, .of_silent ?_ hvisits nofun⟩
    cases hc : c.phase <;> rw [hc] at hweb <;> first | rfl | cases hweb
  | conversing hc hstage hhas hvisits =>
    exact ⟨.more, hhas.spoken_of hstage, .of_silent (by rw [hc]; rfl) hvisits nofun⟩
  | ended hc hspoken hvisits =>
    exact ⟨.ended, hspoken, .of_silent (by rw [hc]; rfl) hvisits fun _ => by rw [hc]; rfl⟩
  | channel hc hspoken hvisits hframes =>
    refine ⟨_, hspoken, ?_, fun _ => ⟨_, rfl, fun channel hchannel => ?_⟩, hframes, nofun⟩
    · rw [hc, hvisits]
      exact Nat.le_refl 1
    · cases hc.symm.trans hchannel
      rfl
  | visited hc hspoken hvisits hframes =>
    refine ⟨_, hspoken, ?_, fun _ => ⟨_, rfl, fun channel hchannel => ?_⟩, hframes, nofun⟩
    · rw [hc, hvisits]
      exact Nat.le_refl 1
    · cases hc.symm.trans hchannel

/-- Nothing is written. -/
theorem Tells.of_silent {written : Bytes} (hweb : c.phase.isWeb = false) (hasked : c.asked = [])
    (hvisits : c.visits = []) (hwritten : c.phase.stream.written = written) :
    Tells s written [] c :=
  ⟨[], hwritten.trans (List.append_nil _).symm, [], [], rfl, .silent hweb hasked hvisits⟩

theorem Tells.refl {bs : Bytes} (h : c.Heard s bs) : Tells s c.phase.stream.written bs c :=
  ⟨[], (List.append_nil _).symm, (List.append_nil bs).symm ▸ h⟩

theorem tells_absorb (hasked : c.asked = []) (hvisits : c.visits = [])
    (stream : PrefixedStream Wire) (taken : Bytes) :
    Tells s stream.inner.written [] (c.absorb stream taken) := by
  fun_induction absorb c stream taken with
  | case1 stream taken stream' hr | case2 stream taken e stream' hr
  | case3 stream taken stream' hr =>
    have hwritten := (stream.written_read chunkSize).1
    rw [hr] at hwritten
    exact .of_silent rfl hasked hvisits hwritten
  | case4 stream taken b bs stream' hr ih =>
    have hwritten := (stream.written_read chunkSize).1
    rw [hr] at hwritten
    exact hwritten ▸ ih

theorem tells_fallBack (hasked : c.asked = []) (hvisits : c.visits = [])
    (stream : PrefixedStream Wire) : Tells s stream.inner.written [] (c.fallBack s stream) := by
  unfold fallBack
  dsimp only
  split
  · exact .of_silent rfl hasked hvisits rfl
  · exact .of_silent rfl hasked hvisits rfl
  · exact tells_absorb (c := c.hand .fallback stream) hasked hvisits stream []

/-- What a channel writes are frames behind the answer that opens it. -/
theorem tells_carry {channel : OpenChannel (PrefixedStream (PrefixedStream Wire))}
    (h : Spoken s.site c.asked words (.channel channel.stream.expander.isSome))
    (hvisits : c.visits = []) {frames : Bytes} (hframes : AreFrames frames) :
    Tells s channel.stream.inner.inner.inner.written (words.flatMap Word.bytes ++ frames)
      (c.carry s channel) := by
  obtain ⟨⟨more, hmore, hmoreFrames⟩, hexpander⟩ := OpenChannel.frames_poll s.config.identity
    s.resolve s.config.connectTimeout Wire.records.prefixed.prefixed channel
  unfold carry
  generalize channel.poll s.config.identity s.resolve s.config.connectTimeout = result
    at hmore hexpander ⊢
  refine ⟨more, ?_, words, frames ++ more, (List.append_assoc _ _ _), ?_⟩
  · cases result <;> exact hmore
  · have hall := hframes.append hmoreFrames
    cases result with
    | waiting channel' =>
      refine .channel rfl ?_ hvisits hall
      rwa [hexpander channel' rfl]
    | ended stream visit => exact .visited rfl h (congrArg (· ++ [visit]) hvisits) hall

theorem tells_converse {talk : Conversation} (h : talk.Has s.site c.asked words)
    (hvisits : c.visits = []) (stream : PrefixedStream Wire) :
    Tells s stream.inner.written (words.flatMap Word.bytes) (c.converse s stream talk) := by
  obtain ⟨⟨new, hwritten, hhas⟩, hstage⟩ := WebPoll.has_ofStream h stream
  unfold converse
  generalize WebPoll.ofStream s.site stream talk = answer at hwritten hhas hstage ⊢
  obtain ⟨result, asked⟩ := answer
  have hall : words.flatMap Word.bytes ++ new.flatMap Word.bytes =
      (words ++ new).flatMap Word.bytes ++ [] := by rw [List.append_nil, List.flatMap_append]
  cases result with
  | waiting stream' talk' =>
    exact ⟨_, hwritten, _, _, hall, .conversing rfl (hstage _ _ rfl) hhas hvisits⟩
  | ended stream' => exact ⟨_, hwritten, _, _, hall, .ended rfl hhas hvisits⟩
  | channel stream' inflates =>
    have hspoken : Spoken s.site (c.asked ++ asked) (words ++ new)
        (.channel (OpenChannel.start stream' inflates).stream.expander.isSome) := by
      rw [OpenChannel.isSome_expander_start]
      exact hhas
    -- Frames may follow at once.
    obtain ⟨more, hmore, hheard⟩ :=
      tells_carry (c := { c with asked := c.asked ++ asked }) hspoken hvisits .nil
    refine ⟨new.flatMap Word.bytes ++ more, hmore.trans ?_, ?_⟩
    · rw [← List.append_assoc, ← hwritten]
      rfl
    · rwa [← hall, List.append_assoc] at hheard

theorem tells_serve (hasked : c.asked = []) (hvisits : c.visits = [])
    (stream : PrefixedStream Wire) : Tells s stream.inner.written [] (c.serve s stream) := by
  have hstart : Conversation.start.Has s.site c.asked [] := by
    rw [hasked]
    exact ⟨.silent, rfl⟩
  exact tells_converse (c := c.hand .web stream) hstart hvisits stream

theorem tells_route (hasked : c.asked = []) (hvisits : c.visits = []) (w : Wire) :
    Tells s w.written [] (c.route s w) := by
  have hwritten := (w.written_read sniffSize).1
  unfold route sniff
  rcases hr : ByteStream.read sniffSize w with ⟨⟨_ | ⟨b, bs⟩⟩ | e | _, w'⟩ <;> rw [hr] at hwritten
  · exact .of_silent rfl hasked hvisits rfl
  · dsimp only
    cases Route.ofByte b with
    | web => exact hwritten ▸ tells_serve hasked hvisits ⟨b :: bs, w'⟩
    | fallback => exact hwritten ▸ tells_fallBack hasked hvisits ⟨b :: bs, w'⟩
  · exact .of_silent rfl hasked hvisits rfl
  · exact .of_silent rfl hasked hvisits hwritten

/-- A connection that goes on tells its client more of the same. -/
theorem tells_poll {bs : Bytes} (h : c.Heard s bs) :
    Tells s c.phase.stream.written bs (c.poll s) := by
  have hsame := Tells.refl h
  obtain ⟨words, frames, rfl, hsaid⟩ := h
  cases hsaid with
  | silent hweb hasked hvisits =>
    cases hc : c.phase with
    | sniffing w =>
      rw [poll, hc]
      exact tells_route hasked hvisits w
    | absorbing stream =>
      rw [poll, hc]
      exact tells_absorb hasked hvisits stream _
    | closed stream =>
      have hpoll : c.poll s = c := by rw [poll, hc]
      rwa [hpoll, ← hc]
    | conversing stream talk | channel channel =>
      rw [hc] at hweb
      cases hweb
  | conversing hc hstage hhas hvisits =>
    rw [poll, hc, List.append_nil]
    exact tells_converse hhas hvisits _
  | channel hc hspoken hvisits hframes =>
    rw [poll, hc]
    exact tells_carry hspoken hvisits hframes
  | ended hc | visited hc =>
    have hpoll : c.poll s = c := by rw [poll, hc]
    rwa [hpoll]

theorem Tells.expire {written bs : Bytes} (h : Tells s written bs c) :
    Tells s written bs c.expire := by
  unfold Connection.expire
  split
  · next w hc =>
    obtain ⟨more, hwritten, words, frames, hbs, hsaid⟩ := h
    refine ⟨more, hwritten, words, frames, hbs, ?_⟩
    cases hsaid with
    | silent _ hasked hvisits => exact .silent rfl hasked hvisits
    | conversing hc' | channel hc' | ended hc' | visited hc' => cases hc.symm.trans hc'
  all_goals exact h

/-- The client's side of the wire does not matter. -/
theorem heard_withStream {bs : Bytes} (h : c.Heard s bs) (w : Wire) :
    Heard s { c with phase := c.phase.withStream w } bs := by
  obtain ⟨words, frames, rfl, hsaid⟩ := h
  refine ⟨words, frames, rfl, ?_⟩
  cases hsaid with
  | silent hweb hasked hvisits =>
    refine .silent ?_ hasked hvisits
    cases hc : c.phase <;> rw [hc] at hweb <;> exact hweb
  | conversing hc hstage hhas hvisits =>
    exact .conversing (congrArg (Phase.withStream w) hc) hstage hhas hvisits
  | channel hc hspoken hvisits hframes =>
    exact .channel (congrArg (Phase.withStream w) hc) hspoken hvisits hframes
  | ended hc hspoken hvisits => exact .ended (congrArg (Phase.withStream w) hc) hspoken hvisits
  | visited hc hspoken hvisits hframes =>
    exact .visited (congrArg (Phase.withStream w) hc) hspoken hvisits hframes

end Connection

/-! ### Runs -/

/-- The bytes that a move takes off those that were written. -/
def ClientMove.taken (written : Bytes) : ClientMove → Bytes
  | take n => written.take n
  | _ => []

namespace Rehearsal

/-- All bytes that are written for a client while it makes its moves. -/
def heard : List ClientMove → Rehearsal → Bytes
  | [], r => r.wire.written
  | m :: moves, r => m.taken r.wire.written ++ heard moves (r.move m)

variable {r : Rehearsal}

theorem written_onWire (f : Wire → Wire) : (r.onWire f).wire.written = (f r.wire).written := by
  unfold onWire wire
  cases r.connection.phase <;> rfl

theorem written_of_move {m : ClientMove} (hm : ∀ ms, m ≠ .wait ms) :
    m.taken r.wire.written ++ (r.move m).wire.written = r.wire.written := by
  cases m with
  | send bs =>
    simp only [move, send, ClientMove.taken, List.nil_append]
    split
    · rfl
    · split
      · rfl
      · exact written_onWire (Wire.send bs)
  | wait ms => exact absurd rfl (hm ms)
  | finish => exact written_onWire Wire.finish
  | hangUp => exact written_onWire Wire.hangUp
  | fail e => exact written_onWire fun w => w.move (.fail e)
  | take n =>
    have hwritten : (r.move (.take n)).wire.written = r.wire.written.drop n :=
      written_onWire fun w => w.move (.take n)
    rw [hwritten]
    exact List.take_append_drop n _

/-- A client that waits is told more of the same, whether the program's time is over or not. -/
theorem tells_wait {bs : Bytes} (ms : Nat) (h : r.connection.Heard r.service bs) :
    Connection.Tells r.service r.wire.written bs (r.wait ms).connection := by
  have hexpire (b : Bool) {c : Connection Wire} (hc : c.Tells r.service r.wire.written bs) :
      Connection.Tells r.service r.wire.written bs (if b then c.expire else c) := by
    cases b with
    | true => exact hc.expire
    | false => exact hc
  exact hexpire (r.settle.expiresBefore (r.clock + ms))
    (hexpire (r.expiresBefore (r.clock + 1)) (Connection.tells_poll h))

theorem heard_move {bs : Bytes} (m : ClientMove)
    (h : r.connection.Heard r.service (bs ++ r.wire.written)) :
    (r.move m).connection.Heard r.service
      (bs ++ m.taken r.wire.written ++ (r.move m).wire.written) := by
  rcases m.wait_or_not with ⟨ms, rfl⟩ | hm
  · have htaken : (ClientMove.wait ms).taken r.wire.written = [] := rfl
    obtain ⟨more, hwritten, hheard⟩ := tells_wait ms h
    have hwire : (r.wait ms).wire.written = r.wire.written ++ more := hwritten
    rw [htaken, List.append_nil, move, hwire, ← List.append_assoc]
    exact hheard
  · obtain ⟨w, hmove, -⟩ := connection_move hm r
    rw [List.append_assoc, written_of_move hm, hmove]
    exact Connection.heard_withStream h w

theorem heard_run (moves : List ClientMove) {bs : Bytes}
    (h : r.connection.Heard r.service (bs ++ r.wire.written)) :
    (run moves r).connection.Heard r.service (bs ++ heard moves r) := by
  induction moves generalizing r bs with
  | nil => exact h
  | cons m moves ih =>
    have hmove := heard_move m h
    have hservice := service_move m r
    rw [← hservice] at hmove
    have hrest := ih hmove
    rwa [hservice, List.append_assoc] at hrest

/-- What is written is heard. -/
theorem written_prefix_heard (moves : List ClientMove) {bs : Bytes}
    (h : r.connection.Heard r.service (bs ++ r.wire.written)) : r.wire.written <+: heard moves r := by
  induction moves generalizing r bs with
  | nil => exact List.prefix_rfl
  | cons m moves ih =>
    have hmove := heard_move m h
    rw [← service_move m r] at hmove
    have hrest := ih hmove
    rcases m.wait_or_not with ⟨ms, rfl⟩ | hm
    · obtain ⟨more, hwritten, -⟩ := tells_wait ms h
      have hwire : ((r.move (.wait ms)).wire.written) = r.wire.written ++ more := hwritten
      rw [hwire] at hrest
      exact (List.prefix_append _ more).trans hrest
    · have hwhole := (List.prefix_append_right_inj (m.taken r.wire.written)).2 hrest
      rwa [written_of_move hm] at hwhole

theorem heard_nothing (s : Service) :
    (start s .idle).connection.Heard s ([] ++ (start s .idle).wire.written) :=
  ⟨[], [], rfl, .silent rfl rfl rfl⟩

/-- What a client has heard since the start. -/
theorem heard_start (s : Service) (moves : List ClientMove) :
    (run moves (start s .idle)).connection.Heard s (heard moves (start s .idle)) :=
  heard_run moves (heard_nothing s)

end Rehearsal

end Switchyard
