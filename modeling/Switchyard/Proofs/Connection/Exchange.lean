import Switchyard.Proofs.Connection.Paying
import Switchyard.Proofs.Connection.Routing

/-!
# Exchanges

What a client hears on the web side are refusals to open a channel, then at most one response of
another kind, and behind it frames at most (`Exchange`). Refusals leave the connection open unless the
client wants an end; pages end it. So the requests behind a failed handshake are answered as well
(`Rehearsal.converses`).
-/

namespace Switchyard

open ClientMove (sent ended failed elapsed)

/-! ### What the web side says -/

namespace Response

theorem status_adapt (r : Response) (version : HttpVersion) (persistent : Bool) :
    (r.adapt version persistent).status = r.status := by
  obtain ⟨connection, h⟩ := r.adapt_eq version persistent
  rw [h]

theorem body_adapt (r : Response) (version : HttpVersion) (persistent : Bool) :
    (r.adapt version persistent).body = r.body := by
  obtain ⟨connection, h⟩ := r.adapt_eq version persistent
  rw [h]

theorem mem_connection_saying {r : Response} {option : ConnectionOption} (h : option ∈ r.connection)
    (other : ConnectionOption) : option ∈ (r.saying other).connection := by
  unfold saying
  split
  · exact h
  · exact List.mem_append_left _ h

/-- What a response says about the connection is not taken back. -/
theorem mem_connection_adapt {r : Response} {option : ConnectionOption} (h : option ∈ r.connection)
    (version : HttpVersion) (persistent : Bool) :
    option ∈ (r.adapt version persistent).connection := by
  unfold adapt
  cases version <;> cases persistent <;> first | exact h | exact mem_connection_saying h _

theorem isLast_of_status {r : Response} (h : r.status = .switchingProtocols) (persistent : Bool) :
    r.isLast persistent = true := by
  simp [isLast, h]

theorem isLast_of_close {r : Response} (h : .close ∈ r.connection) (persistent : Bool) :
    r.isLast persistent = true := by
  simp [isLast, h]

theorem legible_ofFault (e : RequestFault) : (ofFault e).Legible := by
  cases e <;> exact ⟨nofun, nofun, fun _ => rfl⟩

end Response

namespace Page

/-- A page, or the answer where there is none. -/
structure Serves (r : Response) : Prop where
  status_mem : r.status ∈ [.forbidden, .ok, .notFound]
  connection_eq : r.connection = [.close]
  fields_mem : r.fields ∈ [[("content-type", "text/plain; charset=utf-8".toList)],
    [("content-type", "text/plain".toList)]]

theorem serves_ofTarget (c : Config) (provider : List Char) (target : Target) :
    Serves (ofTarget c provider target) := by
  have hdenied : Serves denied := ⟨by decide, rfl, by decide⟩
  have hsubscription : Serves (subscription c provider) := ⟨by simp [subscription, ofText], rfl,
    by simp [subscription, ofText]⟩
  have hmissing : Serves missing := ⟨by decide, rfl, by decide⟩
  cases target with
  | path bs =>
    simp only [ofTarget]
    split
    · exact hdenied
    · split
      · exact hsubscription
      · exact hmissing
  | asterisk | authority | absolute => exact hmissing

theorem Serves.legible {r : Response} (h : Serves r) : r.Legible := by
  have hkinds : ∀ fields ∈ [[("content-type", "text/plain; charset=utf-8".toList)],
      [("content-type", "text/plain".toList)]], ∀ f ∈ fields,
      LegibleField f ∧ f.1 ≠ "content-length" := by
    have hword : Text.IsWord "text/plain".toList := by decide
    have hwords : "text/plain; charset=utf-8".toList =
        List.intercalate [' '] ["text/plain;".toList, "charset=utf-8".toList] := by decide
    intro fields hfields f hf
    rcases List.mem_cons.1 hfields with rfl | hfields
    · obtain rfl := List.mem_singleton.1 hf
      refine ⟨.of (by decide) ?_, by simp⟩
      rw [hwords]
      exact Text.isPlain_intercalate (Text.isPrint_of_all rfl) (by decide)
    · obtain rfl := List.mem_singleton.1 hfields
      obtain rfl := List.mem_singleton.1 hf
      exact ⟨.of (by decide) hword.isPlain, by simp⟩
  have hfields := hkinds r.fields h.fields_mem
  refine ⟨fun f hf => (hfields f hf).1, fun f hf => (hfields f hf).2, fun hstatus => ?_⟩
  have hmem := h.status_mem
  rw [hstatus] at hmem
  simp at hmem

end Page

namespace Service

variable {s : Service} {r : Request}

theorem site_of_not_asks (h : r.asksForWebSocket = false) :
    s.site r = .page (Page.ofTarget s.config s.provider r.target) :=
  if_neg (Bool.eq_false_iff.1 h)

theorem site_of_grants (hasks : r.asksForWebSocket = true) (h : Handshake.Grants r) :
    ∃ key, s.site r = .channel ⟨Handshake.acceptKey key, Handshake.extension? r⟩ := by
  obtain ⟨key, -, -, hof⟩ := Handshake.ofRequest?_of_grants h
  have hsite : s.site r = WebAnswer.toUpgrade r := if_pos hasks
  exact ⟨key, by rw [hsite, WebAnswer.toUpgrade, hof]⟩

/-- A request gets a refusal, a channel or a page. -/
theorem site_cases (s : Service) (r : Request) :
    s.site r = .page Handshake.refusal ∨
      (∃ key, s.site r = .channel ⟨Handshake.acceptKey key, Handshake.extension? r⟩) ∨
      r.asksForWebSocket = false ∧
        s.site r = .page (Page.ofTarget s.config s.provider r.target) := by
  cases hasks : r.asksForWebSocket with
  | false => exact .inr (.inr ⟨rfl, site_of_not_asks hasks⟩)
  | true =>
    by_cases h : Handshake.Grants r
    · exact .inr (.inl (site_of_grants hasks h))
    · exact .inl (s.refuses r hasks h)

theorem legible_site (s : Service) (r : Request) : (s.site r).response.Legible := by
  rcases s.site_cases r with h | ⟨key, h⟩ | ⟨-, h⟩ <;> rw [h]
  · exact Handshake.legible_refusal []
  · exact Handshake.legible_response (fun _ => Extension.isPlain_of_negotiate) _
  · exact (Page.serves_ofTarget s.config s.provider r.target).legible

end Service

/-! ### Words in order -/

namespace Word

variable {site : Request → WebAnswer}

variable (site) in
/-- The answers to requests that come behind others. -/
def answers (before : List Request) : List Request → List Word
  | [] => []
  | r :: rs => answer site before r :: answers (before ++ [r]) rs

theorem answers_concat (before rs : List Request) (r : Request) :
    answers site before (rs ++ [r]) = answers site before rs ++ [answer site (before ++ rs) r] := by
  induction rs generalizing before with
  | nil => rw [List.append_nil]; rfl
  | cons r' rs ih => rw [List.cons_append, answers, answers, ih, List.append_cons before r' rs]; rfl

theorem status_answer (asked : List Request) (r : Request) :
    (answer site asked r).response.status = (site r).response.status :=
  Response.status_adapt _ _ _

/-- A page that was asked for, as it is sent. -/
structure Shows (s : Service) (r : Request) (w : Word) : Prop where
  not_asks : r.asksForWebSocket = false
  method_eq : w.method = r.method
  status_eq : w.response.status = (Page.ofTarget s.config s.provider r.target).status
  body_eq : w.response.body = (Page.ofTarget s.config s.provider r.target).body
  close_mem : .close ∈ w.response.connection

variable {s : Service} {r : Request}

theorem shows_answer (h : r.asksForWebSocket = false) (asked : List Request) :
    (answer s.site asked r).Shows s r := by
  have hsite : (s.site r).response = Page.ofTarget s.config s.provider r.target := by
    rw [Service.site_of_not_asks h]
    rfl
  have hclose : .close ∈ (s.site r).response.connection := by
    rw [hsite, (Page.serves_ofTarget s.config s.provider r.target).connection_eq]
    exact List.mem_singleton_self _
  refine ⟨h, rfl, ?_, ?_, Response.mem_connection_adapt hclose _ _⟩
  · rw [status_answer, hsite]
  · rw [← hsite]
    exact Response.body_adapt _ _ _

end Word

namespace Spoken

variable {site : Request → WebAnswer} {s : Service} {asked : List Request} {words : List Word}
  {behind : Outlook}

theorem words_of_more (h : Spoken site asked words .more) : words = Word.answers site [] asked := by
  generalize hbehind : Outlook.more = behind at h
  induction h with
  | silent => rfl
  | more _ _ _ _ ih => rw [Word.answers_concat, ih rfl]; rfl
  | _ => cases hbehind

/-- The words are the answers to the first requests, in their order, and perhaps one to a fault. -/
theorem exists_answers (h : Spoken site asked words behind) :
    ∃ answered rest fault, asked = answered ++ rest ∧
      words = Word.answers site [] answered ++ Option.toList fault ∧
      ∀ w ∈ fault, ∃ e version, w = Word.fault e version := by
  cases h with
  | silent => exact ⟨[], [], none, rfl, rfl, nofun⟩
  | @more asked words r h | @last asked words r h | @channel asked words r _ h =>
    refine ⟨asked ++ [r], [], none, (List.append_nil _).symm, ?_, nofun⟩
    rw [Word.answers_concat, h.words_of_more]
    exact (List.append_nil _).symm
  | @fault asked words e version h =>
    refine ⟨asked, [], some (.fault e version), (List.append_nil _).symm, ?_, fun w hw => ?_⟩
    · rw [h.words_of_more]
      rfl
    · exact ⟨e, version, (Option.mem_some_iff.1 hw).symm⟩
  | @dropped asked words rest h =>
    exact ⟨asked, rest, none, rfl, h.words_of_more.trans (List.append_nil _).symm, nofun⟩

theorem legible (h : Spoken s.site asked words behind) : ∀ w ∈ words, w.response.Legible := by
  have hanswers (before rs : List Request) :
      ∀ w ∈ Word.answers s.site before rs, w.response.Legible := by
    induction rs generalizing before with
    | nil => nofun
    | cons r rs ih =>
      intro w hw
      rcases List.mem_cons.1 hw with rfl | hw
      · exact (s.legible_site r).adapt _ _
      · exact ih (before ++ [r]) w hw
  obtain ⟨answered, rest, fault, -, rfl, hfault⟩ := h.exists_answers
  intro w hw
  rcases List.mem_append.1 hw with hw | hw
  · exact hanswers [] answered w hw
  · obtain ⟨e, version, rfl⟩ := hfault w (Option.mem_toList.1 hw)
    exact (Response.legible_ofFault e).adapt version false

/-- Nothing but refusals leaves a connection open. -/
theorem refused_of_more (h : Spoken s.site asked words .more) :
    ∀ w ∈ words, w.response.status = .upgradeRequired := by
  generalize hbehind : Outlook.more = behind at h
  induction h with
  | silent => nofun
  | @more asked words r _ hopens _ hlast ih =>
    intro w hw
    rcases List.mem_append.1 hw with hw | hw
    · exact ih rfl w hw
    · obtain rfl := List.mem_singleton.1 hw
      rcases s.site_cases r with hsite | ⟨key, hsite⟩ | ⟨hasks, -⟩
      · rw [Word.status_answer, hsite]
        rfl
      · have hstatus : (Word.answer s.site asked r).response.status = .switchingProtocols := by
          rw [Word.status_answer, hsite]
          rfl
        rw [Response.isLast_of_status hstatus] at hlast
        cases hlast
      · rw [Response.isLast_of_close (Word.shows_answer hasks asked).close_mem] at hlast
        cases hlast
  | _ => cases hbehind

/-- The words behind the refusals. -/
structure Shape (s : Service) (asked : List Request) (behind : Outlook) (refusals : List Word)
    (other : Option Word) : Prop where
  refused : ∀ w ∈ refusals, w.response.status = .upgradeRequired
  other_mem : ∀ w ∈ other, w.response.status ∈ [.forbidden, .ok, .notFound, .switchingProtocols,
    .badRequest, .targetTooLong, .headTooLarge]
  page : ∀ w ∈ other, w.response.status ∈ [.forbidden, .ok, .notFound] →
    ∃ r ∈ asked.getLast?, w.Shows s r
  ended : ∀ w ∈ other, w.response.status ≠ .switchingProtocols → behind = .ended
  granted : ∀ inflates, behind = .channel inflates →
    ∃ w ∈ other, w.response.status = .switchingProtocols

theorem Shape.of_refusals (h : ∀ w ∈ words, w.response.status = .upgradeRequired)
    (hbehind : ∀ inflates, behind ≠ .channel inflates) : Shape s asked behind words none :=
  ⟨h, nofun, nofun, nofun, fun inflates hchannel => absurd hchannel (hbehind inflates)⟩

variable {w : Word}

/-- A response that ends the connection. -/
theorem Shape.of_end (h : ∀ w ∈ words, w.response.status = .upgradeRequired)
    (hmem : w.response.status ∈ [.forbidden, .ok, .notFound, .switchingProtocols, .badRequest,
      .targetTooLong, .headTooLarge])
    (hpage : w.response.status ∈ [.forbidden, .ok, .notFound] →
      ∃ r ∈ asked.getLast?, w.Shows s r) : Shape s asked .ended words (some w) where
  refused := h
  other_mem _ hw := Option.mem_some_iff.1 hw ▸ hmem
  page _ hw := Option.mem_some_iff.1 hw ▸ hpage
  ended _ _ _ := rfl
  granted := nofun

/-- The response that grants a channel. No channel is opened behind it for an old client. -/
theorem Shape.of_granted (h : ∀ w ∈ words, w.response.status = .upgradeRequired)
    (hstatus : w.response.status = .switchingProtocols) :
    Shape s asked behind words (some w) where
  refused := h
  other_mem _ hw := by
    obtain rfl := Option.mem_some_iff.1 hw
    simp [hstatus]
  page _ hw := by
    obtain rfl := Option.mem_some_iff.1 hw
    simp [hstatus]
  ended _ hw hne := absurd hstatus (Option.mem_some_iff.1 hw ▸ hne)
  granted _ _ := ⟨w, rfl, hstatus⟩

/-- A page, an answer that grants a channel, or one to a fault ends the conversation. -/
theorem exists_shape (h : Spoken s.site asked words behind) :
    ∃ refusals other, words = refusals ++ Option.toList other ∧
      Shape s asked behind refusals other := by
  have hnone (words : List Word) : words = words ++ Option.toList none :=
    (List.append_nil words).symm
  cases h with
  | silent => exact ⟨[], none, rfl, .of_refusals nofun nofun⟩
  | more h hopens hwritable hlast =>
    exact ⟨_, none, hnone _, .of_refusals (h.more hopens hwritable hlast).refused_of_more nofun⟩
  | dropped rest h => exact ⟨words, none, hnone _, .of_refusals h.refused_of_more nofun⟩
  | @last asked words r h hopens hwritable hlast =>
    rcases s.site_cases r with hsite | ⟨key, hsite⟩ | ⟨hasks, -⟩
    · -- The client wants an end, and this refusal is the last one.
      refine ⟨_, none, hnone _, .of_refusals (fun w hw => ?_) nofun⟩
      rcases List.mem_append.1 hw with hw | hw
      · exact h.refused_of_more w hw
      · obtain rfl := List.mem_singleton.1 hw
        rw [Word.status_answer, hsite]
        rfl
    · have hstatus : (Word.answer s.site asked r).response.status = .switchingProtocols := by
        rw [Word.status_answer, hsite]
        rfl
      exact ⟨words, some _, rfl, .of_granted h.refused_of_more hstatus⟩
    · have hshows := Word.shows_answer (s := s) hasks asked
      have hserves := Page.serves_ofTarget s.config s.provider r.target
      refine ⟨words, some _, rfl, .of_end h.refused_of_more ?_ fun _ => ⟨r, ?_, hshows⟩⟩
      · rw [hshows.status_eq]
        exact List.mem_append_left [.switchingProtocols, .badRequest, .targetTooLong, .headTooLarge]
          hserves.status_mem
      · exact List.getLast?_concat ..
  | @channel asked words r inflates h hopens hwritable =>
    obtain ⟨-, handshake, hsite, -⟩ := WebAnswer.of_opens hopens
    have hstatus : (Word.answer s.site asked r).response.status = .switchingProtocols := by
      rw [Word.status_answer, hsite]
      rfl
    exact ⟨words, some _, rfl, .of_granted h.refused_of_more hstatus⟩
  | fault e version h =>
    have hstatus : (Word.fault e version).response.status ∈
        [.badRequest, .targetTooLong, .headTooLarge] := by
      rw [Word.fault, Response.status_adapt]
      cases e <;> decide
    refine ⟨_, some _, rfl, .of_end h.refused_of_more ?_ fun hpage => ?_⟩
    · exact List.mem_append_right [.forbidden, .ok, .notFound, .switchingProtocols] hstatus
    · generalize (Word.fault e version).response.status = status at hstatus hpage
      cases status <;> simp at hstatus hpage

end Spoken

/-! ### Exchanges -/

/-- What a client has heard on a connection: refusals, at most one other response, and frames of a
channel. -/
structure Exchange (s : Service) (c : Connection Wire) (heard : Bytes) (refusals : List Word)
    (other : Option Word) (frames : Bytes) : Prop where
  heard_eq : heard = (refusals ++ other.toList).flatMap Word.bytes ++ frames
  refused : ∀ w ∈ refusals, w.response.status = .upgradeRequired
  other_mem : ∀ w ∈ other, w.response.status ∈ [.forbidden, .ok, .notFound, .switchingProtocols,
    .badRequest, .targetTooLong, .headTooLarge]
  /-- The client can tell the responses apart. -/
  legible : ∀ w ∈ refusals ++ other.toList, w.response.body.length < UInt64.size → ∀ rest,
    Reply.read? (w.method = "HEAD".toList) (w.bytes ++ rest) =
      some (w.response.reply w.version w.method, rest)
  in_order : ∃ answered rest fault, c.asked = answered ++ rest ∧
    refusals ++ other.toList = Word.answers s.site [] answered ++ Option.toList fault ∧
    ∀ w ∈ fault, ∃ e version, w = Word.fault e version
  tells_length : ∀ w ∈ refusals ++ other.toList, w.response.status ≠ .switchingProtocols →
    (w.response.reply w.version w.method).fields.lookup "content-length".toList =
      some (Numeral.ofNat w.response.body.length)
  page : ∀ w ∈ other, w.response.status ∈ [.forbidden, .ok, .notFound] →
    ∃ r ∈ c.asked.getLast?, w.Shows s r
  /-- Nothing follows but what a channel carries. -/
  ends : ∀ w ∈ other, w.response.status ≠ .switchingProtocols →
    c.phase.isClosed = true ∧ frames = []
  sessions_le : c.phase.sessions + c.visits.length ≤ 1
  granted : 0 < c.phase.sessions + c.visits.length ∨ frames ≠ [] →
    ∃ w ∈ other, w.response.status = .switchingProtocols
  areFrames : AreFrames frames

/-- Whatever is heard on a connection is such an exchange. -/
theorem Connection.Said.exists_exchange {s : Service} {c : Connection Wire} {words : List Word}
    {frames : Bytes} (h : c.Said s words frames) :
    ∃ refusals other,
      Exchange s c (words.flatMap Word.bytes ++ frames) refusals other frames := by
  obtain ⟨behind, hspoken, hbehind⟩ := h.exists_behind
  have hlegible := hspoken.legible
  obtain ⟨refusals, other, rfl, hshape⟩ := hspoken.exists_shape
  refine ⟨refusals, other, {
    heard_eq := rfl
    refused := hshape.refused
    other_mem := hshape.other_mem
    legible := fun w hw hlt rest => Reply.read?_bytes (hlegible w hw) w.version w.method hlt rest
    in_order := hspoken.exists_answers
    tells_length := fun w hw hstatus => (hlegible w hw).lookup_length hstatus
    page := hshape.page
    ends := fun w hw hstatus => hbehind.ended (hshape.ended w hw hstatus)
    sessions_le := hbehind.sessions_le
    granted := fun h => ?_
    areFrames := hbehind.areFrames }⟩
  obtain ⟨inflates, hchannel, -⟩ := hbehind.opened h
  exact hshape.granted inflates hchannel

/-- **The shape of conversations.** What a client has heard are refusals to open a channel, and then
at most one other response, in the order of its requests. Behind a page, or an answer to a fault, the
connection is closed; behind one that grants a channel there is at most one session. The requests
behind a failed handshake are answered as well: a client whose first byte comes in time, and that
stays, hears all it is owed when it waits, in whatever parts it has sent the heads. -/
theorem Rehearsal.converses (s : Service) (moves : List ClientMove) :
    (∃ refusals other frames, Exchange s (run moves (start s .idle)).connection
      (heard moves (start s .idle)) refusals other frames) ∧
    ∀ before after ms out, moves = before ++ .wait ms :: after →
      (after = [] ∨ ∃ init ms', after = init ++ [.wait ms']) →
      ended moves = false → failed moves = false → sent before ≠ [] →
      (∀ time ∈ s.sniffLimit, elapsed before < time) →
      (∃ b ∈ Bytes.ofString "GPHDOCT", (sent moves).head? = some b) →
      Owed s.site (sent moves) out → out <+: heard moves (start s .idle) := by
  refine ⟨?_, ?_⟩
  · obtain ⟨words, frames, hheard, hsaid⟩ := heard_start s moves
    obtain ⟨refusals, other, hexchange⟩ := hsaid.exists_exchange
    exact ⟨refusals, other, frames, hheard ▸ hexchange⟩
  · rintro before after ms out rfl hlast hended hfailed hfirst htime ⟨b, hb, hhead⟩ howed
    have hfresh : (start s .idle).Fresh .idle := ⟨rfl, rfl, rfl, rfl, rfl, rfl⟩
    have hweb : (sent (before ++ .wait ms :: after)).head?.map Route.ofByte = some .web := by
      rw [hhead, Option.map_some, Route.ofByte_eq, if_pos hb]
    refine heard_of_fresh hfresh (heard_nothing s) ⟨hended, hfailed⟩ hfirst hweb ?_ hlast howed
    have hclock : (start s .idle).clock + elapsed before = elapsed before := Nat.zero_add _
    rw [hclock]
    exact htime

namespace Rehearsal

/-- The head of a request for a channel that names no version. -/
def versionlessHead : Bytes :=
  Bytes.ofString "GET / HTTP/1.1\r\nupgrade: websocket\r\n\r\n"

def versionlessRequest : Request :=
  ⟨"GET".toList, .path Page.rootPath, .http11, [⟨"upgrade".toList, Bytes.ofString "websocket"⟩],
    .empty, true⟩

/-- Behind a failed handshake the root is answered. -/
theorem converses_behind_refusal :
    let refused := Word.answer sampleService.site [] versionlessRequest
    let denied := Word.answer sampleService.site [] rootRequest
    refused.response.status = .upgradeRequired ∧ denied.response.status = .forbidden ∧
      refused.bytes ++ denied.bytes <+:
        heard [.send versionlessHead, .wait 0, .send rootBytes, .wait 0]
          (start sampleService .idle) := by
  have hhead : Request.IsHead versionlessHead versionlessRequest := by
    unfold Request.IsHead
    decide +kernel
  have hroot : Request.IsHead rootBytes rootRequest := by
    unfold Request.IsHead
    decide +kernel
  have hfails : versionlessRequest.FailsOpenly :=
    ⟨by decide, by decide +kernel, rfl, rfl, by decide +kernel⟩
  have hlast : Owed sampleService.site (rootBytes ++ [])
      (Word.answer sampleService.site [] rootRequest).bytes :=
    .answer hroot (by decide) (by decide +kernel) []
  have howed := Owed.refused hhead (by decide) hfails hlast
  have hgreeting : ∃ b ∈ Bytes.ofString "GPHDOCT", (versionlessHead ++ rootBytes).head? = some b :=
    ⟨71, by decide, rfl⟩
  refine ⟨by decide +kernel, by decide +kernel, ?_⟩
  exact (converses sampleService [.send versionlessHead, .wait 0, .send rootBytes, .wait 0]).2
    [.send versionlessHead] [.send rootBytes, .wait 0] 0 _ rfl (.inr ⟨[.send rootBytes], 0, rfl⟩)
    rfl rfl (by decide) nofun hgreeting howed

end Rehearsal

end Switchyard
