import Switchyard.Proofs.Connection.Speech
import Switchyard.Proofs.Http.Replies
import Switchyard.Proofs.Text.Base64

/-!
# What a client is told about its channel

The answer to a request for a channel is read by its client (`Reply.read?_bytes`), and what it says is
what the server does. No text that is negotiated and no digest of a key has a character which a field
cannot have, so nothing is left out of the answer; compression is on exactly when it is agreed to.
-/

namespace Switchyard

open Text (IsWord IsPlain)

/-! ### Texts that can be sent -/

namespace Extension

theorem isWord_name : IsWord name := by decide

theorem Parameter.isWord_answer {p : Parameter} {text : List Char} (h : p.answer? = some text) :
    IsWord text := by
  cases p with
  | serverNoContextTakeover =>
    cases h
    decide
  | serverMaxWindowBits bits =>
    cases h
    have hword : IsWord "server_max_window_bits=".toList := by decide
    exact hword.append (Text.isWord_ofNat bits)
  | clientNoContextTakeover => cases h
  | clientMaxWindowBits bits => cases h

theorem isPlain_answer (ps : List Parameter) : IsPlain (answer ps) := by
  refine Text.isPlain_intercalate (Text.isPrint_of_all rfl) fun w hw => ?_
  rcases List.mem_cons.1 hw with rfl | hw
  · exact isWord_name
  · obtain ⟨p, -, hp⟩ := List.mem_filterMap.1 hw
    exact p.isWord_answer hp

/-- Whatever the client offers, what it is answered can stand in a field. -/
theorem isPlain_of_negotiate {values : List (List Char)} {text : List Char}
    (h : negotiate values = some text) : IsPlain text := by
  obtain ⟨ps, -, rfl⟩ := Option.map_eq_some_iff.1 h
  exact isPlain_answer ps

end Extension

namespace Handshake

theorem isPlain_acceptKey (key : Bytes) : IsPlain (acceptKey key) := by
  have halphabet : IsWord ('=' :: Base64.alphabet) := by decide
  exact Text.isPlain_of_graphic fun c hc => halphabet.graphic c (Base64.mem_of_mem_encode hc)

/-! ### The answer -/

variable {r : Request}

/-- The client may have a channel. -/
def Grants (r : Request) : Prop :=
  r.method = "GET".toList ∧ (r.values "sec-websocket-version").head? = some [0x31, 0x33] ∧
    r.values "sec-websocket-key" ≠ []

instance : DecidablePred Grants := fun r =>
  inferInstanceAs (Decidable (r.method = "GET".toList ∧
    (r.values "sec-websocket-version").head? = some [0x31, 0x33] ∧
      r.values "sec-websocket-key" ≠ []))

theorem ofRequest?_of_grants (h : Grants r) :
    ∃ key keys, r.values "sec-websocket-key" = key :: keys ∧
      ofRequest? r = some ⟨acceptKey key, extension? r⟩ := by
  obtain ⟨hmethod, hversion, hkey⟩ := h
  obtain ⟨key, keys, hkeys⟩ := List.exists_cons_of_ne_nil hkey
  refine ⟨key, keys, hkeys, ?_⟩
  rw [ofRequest?, if_pos ⟨hmethod, hversion⟩, hkeys]
  rfl

theorem ofRequest?_of_not_grants (h : ¬ Grants r) : ofRequest? r = none := by
  unfold ofRequest?
  split
  · next hfront =>
    cases hkeys : r.values "sec-websocket-key" with
    | nil => rfl
    | cons key keys => exact absurd ⟨hfront.1, hfront.2, by simp [hkeys]⟩ h
  · rfl

/-- Nothing is left out of the answer. -/
theorem fields_response {key : Bytes} {extension : Option (List Char)}
    (h : ∀ text ∈ extension, IsPlain text) :
    (Handshake.mk (acceptKey key) extension).response.fields =
      ("upgrade", "websocket".toList) :: ("sec-websocket-accept", acceptKey key) ::
        (extension.map fun text => ("sec-websocket-extensions", text)).toList := by
  unfold response
  rw [Http.sendable?_eq_some (isPlain_acceptKey key).print]
  cases extension with
  | none => rfl
  | some text =>
    rw [Option.bind_some, Http.sendable?_eq_some (h text rfl).print]
    rfl

theorem legible_response {key : Bytes} {extension : Option (List Char)}
    (h : ∀ text ∈ extension, IsPlain text) (connection : List ConnectionOption) :
    Response.Legible { (Handshake.mk (acceptKey key) extension).response with connection } := by
  have hwebsocket : IsWord "websocket".toList := by decide
  have hfields : ∀ f ∈ (Handshake.mk (acceptKey key) extension).response.fields,
      LegibleField f ∧ f.1 ≠ "content-length" := by
    rw [fields_response h]
    intro f hf
    rcases List.mem_cons.1 hf with rfl | hf
    · exact ⟨.of (by decide) hwebsocket.isPlain, by simp⟩
    rcases List.mem_cons.1 hf with rfl | hf
    · exact ⟨.of (by decide) (isPlain_acceptKey key), by simp⟩
    · obtain ⟨text, htext, rfl⟩ := Option.map_eq_some_iff.1 (Option.mem_toList.1 hf)
      exact ⟨.of (by decide) (h text htext), by simp⟩
  exact ⟨fun f hf => (hfields f hf).1, fun f hf => (hfields f hf).2, fun _ => rfl⟩

section Reading

variable {key : Bytes} {extension : Option (List Char)} (h : ∀ text ∈ extension, IsPlain text)
  (connection : List ConnectionOption) (version : HttpVersion) (method : List Char)

include h

theorem lookup_accept :
    (Response.reply { (mk (acceptKey key) extension).response with connection } version
      method).fields.lookup "sec-websocket-accept".toList = some (acceptKey key) := by
  unfold Response.reply Response.allFields
  dsimp only
  rw [fields_response h, List.cons_append, List.cons_append, List.cons_append, List.cons_append]
  exact Response.lookup_first [_] _ (by simp)

/-- The field is there if an extension is in use, and only then. -/
theorem lookup_extensions :
    (Response.reply { (mk (acceptKey key) extension).response with connection } version
      method).fields.lookup "sec-websocket-extensions".toList = extension := by
  unfold Response.reply Response.allFields
  dsimp only
  rw [fields_response h]
  cases extension with
  | none =>
    refine Response.lookup_eq_none fun f hf => ?_
    rcases List.mem_append.1 hf with hf | hf
    · rcases List.mem_append.1 hf with hf | hf
      · rcases List.mem_cons.1 hf with rfl | hf
        · simp
        · obtain rfl := List.mem_singleton.1 hf
          simp
      · exact Response.ne_of_mem_connectionField (by decide) f hf
    · cases hf
  | some text => exact Response.lookup_first [_, _] _ (by simp)

end Reading

theorem legible_refusal (connection : List ConnectionOption) :
    Response.Legible { refusal with connection } := by
  have hversion : IsWord version := by decide
  refine ⟨fun f hf => ?_, fun f hf => ?_, fun _ => rfl⟩
  · obtain rfl := List.mem_singleton.1 hf
    exact .of (by decide) hversion.isPlain
  · obtain rfl := List.mem_singleton.1 hf
    simp

end Handshake

/-! ### Both halves -/

namespace Handshake

/-- What the client of a request reads agrees with what comes behind its answer. -/
structure Agrees (r : Request) (reply : Reply) (behind : Outlook) : Prop where
  granted_iff : reply.statusLine = "HTTP/1.1 101 Switching Protocols".toList ↔ Grants r
  /-- A client that may not have a channel is told which version is spoken here. -/
  refused : ¬ Grants r → reply.statusLine = "HTTP/1.1 426 Upgrade Required".toList ∧
    reply.fields.lookup "sec-websocket-version".toList = some "13".toList ∧
    ∀ inflates, behind ≠ .channel inflates
  accept : Grants r → ∃ key ∈ (r.values "sec-websocket-key").head?,
    reply.fields.lookup "sec-websocket-accept".toList =
      some (Base64.encode (Sha1.digest (key ++ guid)))
  /-- Messages are expanded if and only if the client is told so. -/
  extension : Grants r →
    reply.fields.lookup "sec-websocket-extensions".toList = extension? r ∧
    behind = .channel (extension? r).isSome

variable {r : Request} {behind : Outlook} (connection : List ConnectionOption)

theorem Agrees.of_grants (h : Grants r) {key : Bytes} {keys : List Bytes}
    (hkeys : r.values "sec-websocket-key" = key :: keys)
    (hbehind : behind = .channel (extension? r).isSome) :
    Agrees r (Response.reply
      { (Handshake.mk (acceptKey key) (extension? r)).response with connection } .http11
      r.method) behind :=
  have hplain : ∀ text ∈ extension? r, IsPlain text := fun _ => Extension.isPlain_of_negotiate
  { granted_iff := ⟨fun _ => h, fun _ =>
      (by decide : Response.statusLine .switchingProtocols .http11 = _)⟩
    refused := fun hnot => absurd h hnot
    accept := fun _ => ⟨key, by rw [hkeys]; rfl, lookup_accept hplain connection .http11 r.method⟩
    extension := fun _ => ⟨lookup_extensions hplain connection .http11 r.method, hbehind⟩ }

theorem Agrees.of_not_grants (h : ¬ Grants r) (hbehind : ∀ inflates, behind ≠ .channel inflates) :
    Agrees r (Response.reply { refusal with connection } .http11 r.method) behind :=
  have hstatus : Response.statusLine .upgradeRequired .http11 =
      "HTTP/1.1 426 Upgrade Required".toList := by decide
  have hne : "HTTP/1.1 426 Upgrade Required".toList ≠
      "HTTP/1.1 101 Switching Protocols".toList := by decide
  { granted_iff :=
      ⟨fun hgranted => absurd (hstatus.symm.trans hgranted) hne, fun hg => absurd hg h⟩
    refused := fun _ => ⟨hstatus, Response.lookup_first [] _ nofun, hbehind⟩
    accept := fun hg => absurd hg h
    extension := fun hg => absurd hg h }

/-- Whatever the answer says about the connection, its client reads what is done. -/
theorem exists_agrees (hversion : r.version = .http11)
    (hbehind : ∀ inflates, (WebAnswer.toUpgrade r).opens r.version = some inflates ↔
      behind = .channel inflates) (persistent : Bool) (rest : Bytes) :
    ∃ reply, Reply.read? (r.method = "HEAD".toList)
        (((WebAnswer.toUpgrade r).response.adapt r.version persistent).bytes r.version r.method ++
          rest) = some (reply, rest) ∧ Agrees r reply behind := by
  have hempty : 0 < UInt64.size := by decide
  obtain ⟨connection, hadapt⟩ := (WebAnswer.toUpgrade r).response.adapt_eq r.version persistent
  rw [hadapt]
  by_cases h : Grants r
  · obtain ⟨key, keys, hkeys, hof⟩ := ofRequest?_of_grants h
    have hplain : ∀ text ∈ extension? r, IsPlain text := fun _ => Extension.isPlain_of_negotiate
    rw [WebAnswer.toUpgrade, hof, hversion] at hbehind ⊢
    rw [WebAnswer.response,
      Reply.read?_bytes (legible_response hplain connection) .http11 r.method hempty rest]
    exact ⟨_, rfl, .of_grants connection h hkeys ((hbehind _).1 rfl)⟩
  · rw [WebAnswer.toUpgrade, ofRequest?_of_not_grants h, hversion] at hbehind ⊢
    rw [WebAnswer.response,
      Reply.read?_bytes (legible_refusal connection) .http11 r.method hempty rest]
    refine ⟨_, rfl, .of_not_grants connection h fun inflates hchannel => ?_⟩
    cases (hbehind inflates).2 hchannel

end Handshake

theorem Response.isWritable_of_ne {response : Response} (h : response.status ≠ .ok)
    (method : List Char) : response.isWritable method = true := by
  simp [isWritable, h]

theorem WebAnswer.status_toUpgrade_ne (r : Request) : (toUpgrade r).response.status ≠ .ok := by
  unfold toUpgrade
  split <;> nofun

/-- Channels are opened for new clients that are granted one. -/
theorem WebAnswer.of_opens {a : WebAnswer} {version : HttpVersion} {inflates : Bool}
    (h : a.opens version = some inflates) :
    version = .http11 ∧ ∃ handshake, a = .channel handshake ∧ handshake.inflates = inflates := by
  cases a with
  | page => cases version <;> cases h
  | channel handshake =>
    cases version with
    | http10 => cases h
    | http11 => exact ⟨rfl, handshake, rfl, Option.some.inj h⟩

namespace Conversation

variable {site : Request → WebAnswer} {c : Conversation} {r : Request}

/-- An answer that can be written is the response with what it says about the connection. -/
theorem answer_of_isWritable (h : (site r).response.isWritable r.method = true) :
    (c.answer site r).1 =
        ((site r).response.adapt r.version c.persistent).bytes r.version r.method ∧
      ∀ inflates, (site r).opens r.version = some inflates ↔
        (c.answer site r).2 = .channel inflates := by
  obtain ⟨connection, hadapt⟩ := (site r).response.adapt_eq r.version c.persistent
  have hwritable : ((site r).response.adapt r.version c.persistent).isWritable r.method = true := by
    rw [hadapt]
    exact h
  have hanswer : c.answer site r = _ := if_pos hwritable
  rw [hanswer]
  refine ⟨rfl, fun inflates => ?_⟩
  cases (site r).opens r.version with
  | some _ => simp
  | none =>
    dsimp only
    split <;> simp

end Conversation

/-- A channel has an answer in front that its client could read. -/
theorem Spoken.exists_agrees {s : Service} {asked : List Request} {words : List Word}
    {inflates : Bool} (h : Spoken s.site asked words (.channel inflates)) (frames : Bytes) :
    ∃ before r front answer reply, asked = before ++ [r] ∧ r.asksForWebSocket = true ∧
      r.version = .http11 ∧ words.flatMap Word.bytes = front ++ answer ∧
      Reply.read? (r.method = "HEAD".toList) (answer ++ frames) = some (reply, frames) ∧
      Handshake.Agrees r reply (.channel inflates) := by
  cases h with
  | @channel before words r _ _ hopens _ =>
    obtain ⟨hversion, handshake, hchannel, -⟩ := WebAnswer.of_opens hopens
    have hasks : r.asksForWebSocket = true := by
      refine of_not_not fun hnot => ?_
      have hpage : s.site r = .page (Page.ofTarget s.config s.provider r.target) := if_neg hnot
      cases hpage.symm.trans hchannel
    have hsite : s.site r = WebAnswer.toUpgrade r := if_pos hasks
    have hbehind (other : Bool) : (WebAnswer.toUpgrade r).opens r.version = some other ↔
        Outlook.channel inflates = .channel other := by
      rw [← hsite, hopens]
      simp
    obtain ⟨reply, hread, hagrees⟩ := Handshake.exists_agrees hversion hbehind
      (Request.allKeepOpen (before ++ [r])) frames
    refine ⟨before, r, words.flatMap Word.bytes, (Word.answer s.site before r).bytes, reply, rfl,
      hasks, hversion, ?_, ?_, hagrees⟩
    · rw [List.flatMap_append, List.flatMap_singleton]
    · rw [Word.bytes, Word.answer, hsite]
      exact hread

/-- **The two halves of the handshake agree.** A client of HTTP/1.1 that asks for a channel is granted it,
with the digest of its key and the extension as it was negotiated, or reads which version is wanted,
and then there is no channel. Along every run, a session stands behind the first answer, and its
messages are expanded if and only if the client was told so. -/
theorem Service.handshakes_agree (s : Service) :
    (∀ (c : Conversation) (r : Request) (rest : Bytes), r.asksForWebSocket = true →
      r.version = .http11 → ∃ reply,
        Reply.read? (r.method = "HEAD".toList) ((c.answer s.site r).1 ++ rest) =
          some (reply, rest) ∧ Handshake.Agrees r reply (c.answer s.site r).2) ∧
    (∀ moves, let c := (Rehearsal.run moves (.start s .idle)).connection
      0 < c.phase.sessions + c.visits.length →
      ∃ asked r front answer frames reply inflates, c.asked = asked ++ [r] ∧
        r.asksForWebSocket = true ∧ r.version = .http11 ∧
        Rehearsal.heard moves (.start s .idle) = front ++ answer ++ frames ∧
        Reply.read? (r.method = "HEAD".toList) (answer ++ frames) = some (reply, frames) ∧
        Handshake.Agrees r reply (.channel inflates) ∧
        ∀ channel, c.phase = .channel channel → channel.stream.expander.isSome = inflates) ∧
    ∀ values text, Extension.negotiate values = some text → Http.sendable? text = some text := by
  refine ⟨fun c r rest hasks hversion => ?_, fun moves => ?_, fun values text h => ?_⟩
  · have hsite : s.site r = WebAnswer.toUpgrade r := if_pos hasks
    have hwritable : (s.site r).response.isWritable r.method = true := by
      rw [hsite]
      exact Response.isWritable_of_ne (WebAnswer.status_toUpgrade_ne r) r.method
    obtain ⟨hbytes, hopens⟩ := Conversation.answer_of_isWritable (c := c) hwritable
    rw [hsite] at hbytes hopens
    rw [hbytes]
    exact Handshake.exists_agrees hversion hopens c.persistent rest
  · obtain ⟨words, frames, hheard, hsaid⟩ := Rehearsal.heard_start s moves
    dsimp only
    intro hsession
    obtain ⟨behind, hspoken, hbehind⟩ := hsaid.exists_behind
    obtain ⟨inflates, rfl, hexpander⟩ := hbehind.opened (.inl hsession)
    obtain ⟨asked, r, front, answer, reply, hasked, hasks, hversion, hwords, hread, hagrees⟩ :=
      hspoken.exists_agrees frames
    exact ⟨asked, r, front, answer, frames, reply, inflates, hasked, hasks, hversion,
      hwords ▸ hheard, hread, hagrees, hexpander⟩
  · exact Http.sendable?_eq_some (Extension.isPlain_of_negotiate h).print

/-- A request for a channel with compressed messages. -/
def chatRequest : Request where
  method := "GET".toList
  target := .path Page.rootPath
  version := .http11
  fields :=
    [⟨"upgrade".toList, Bytes.ofString "websocket"⟩,
      ⟨"sec-websocket-version".toList, Bytes.ofString "13"⟩,
      ⟨"sec-websocket-key".toList, Bytes.ofString "dGhlIHNhbXBsZSBub25jZQ=="⟩,
      ⟨"sec-websocket-extensions".toList,
        Bytes.ofString "permessage-deflate; server_max_window_bits=12"⟩]
  framing := .empty
  keepsHead := false

/-- The client of such a request reads the value that belongs to its key, which is the one of RFC 6455,
section 1.3. -/
theorem Service.handshakes_agree_at_chat :
    chatRequest.asksForWebSocket = true ∧ Handshake.Grants chatRequest ∧
      Handshake.extension? chatRequest =
        some "permessage-deflate; server_max_window_bits=12".toList ∧
      ∃ reply, Reply.read? false
          (Conversation.start.answer Rehearsal.sampleService.site chatRequest).1 =
            some (reply, []) ∧
        reply.fields.lookup "sec-websocket-accept".toList =
          some "s3pPLMBiTxaQ9kYGzzhZRbK+xOo=".toList ∧
        Handshake.Agrees chatRequest reply
          (Conversation.start.answer Rehearsal.sampleService.site chatRequest).2 := by
  have hgrants : Handshake.Grants chatRequest := by decide +kernel
  refine ⟨by decide +kernel, hgrants, by decide +kernel, ?_⟩
  obtain ⟨reply, hread, hagrees⟩ := (handshakes_agree Rehearsal.sampleService).1 .start chatRequest []
    (by decide +kernel) rfl
  rw [List.append_nil] at hread
  refine ⟨reply, hread, ?_, hagrees⟩
  obtain ⟨key, hkey, haccept⟩ := hagrees.accept hgrants
  have hvalue : (chatRequest.values "sec-websocket-key").head? =
      some (Bytes.ofString "dGhlIHNhbXBsZSBub25jZQ==") := by decide +kernel
  obtain rfl : Bytes.ofString "dGhlIHNhbXBsZSBub25jZQ==" = key := Option.some.inj (hvalue ▸ hkey)
  rw [haccept]
  decide +kernel

end Switchyard
