import Switchyard.Proofs.Web.Asking

/-!
# What a conversation says

What a conversation sends are whole responses, one after the other (`Word`). Behind each but the last
one more requests are taken, and the answers are those to the requests in their order (`Spoken`). Each
step of a conversation adds such words, however the bytes of its client are cut (`Adds`).
-/

namespace Switchyard

/-- A response, with what decides how it is written. -/
structure Word where
  response : Response
  version : HttpVersion
  method : List Char
  deriving DecidableEq, Repr

def Word.bytes (w : Word) : Bytes :=
  w.response.bytes w.version w.method

/-- The client has wanted the connection to stay open with each of these requests. -/
def Request.allKeepOpen (asked : List Request) : Bool :=
  asked.all keepsOpen

/-- The answer to a request that comes behind others. -/
def Word.answer (site : Request → WebAnswer) (asked : List Request) (r : Request) : Word :=
  ⟨(site r).response.adapt r.version (Request.allKeepOpen (asked ++ [r])), r.version, r.method⟩

/-- The answer to a fault of a client that spoke this version last. -/
def Word.fault (e : RequestFault) (version : HttpVersion) : Word :=
  ⟨(Response.ofFault e).adapt version false, version, []⟩

variable (site : Request → WebAnswer)

/-- The words on a connection with these requests, and what comes behind them. -/
inductive Spoken : List Request → List Word → Outlook → Prop
  | silent : Spoken [] [] .more
  | more {asked words r} : Spoken asked words .more → (site r).opens r.version = none →
      (Word.answer site asked r).response.isWritable r.method = true →
      (Word.answer site asked r).response.isLast (Request.allKeepOpen (asked ++ [r])) = false →
      Spoken (asked ++ [r]) (words ++ [Word.answer site asked r]) .more
  | last {asked words r} : Spoken asked words .more → (site r).opens r.version = none →
      (Word.answer site asked r).response.isWritable r.method = true →
      (Word.answer site asked r).response.isLast (Request.allKeepOpen (asked ++ [r])) = true →
      Spoken (asked ++ [r]) (words ++ [Word.answer site asked r]) .ended
  | channel {asked words r inflates} : Spoken asked words .more →
      (site r).opens r.version = some inflates →
      (Word.answer site asked r).response.isWritable r.method = true →
      Spoken (asked ++ [r]) (words ++ [Word.answer site asked r]) (.channel inflates)
  | fault {asked words} (e : RequestFault) (version : HttpVersion) : Spoken asked words .more →
      Spoken asked (words ++ [Word.fault e version]) .ended
  /-- Further requests get no answer. -/
  | dropped {asked words} (rest : List Request) : Spoken asked words .more →
      Spoken (asked ++ rest) words .ended

variable {site} {asked : List Request} {words : List Word}

theorem Spoken.ended (h : Spoken site asked words .more) : Spoken site asked words .ended :=
  List.append_nil asked ▸ h.dropped []

theorem Outlook.final_ne_more (behind : Outlook) : behind.final ≠ .more := by
  cases behind <;> nofun

theorem Spoken.final {behind : Outlook} (h : Spoken site asked words behind) :
    Spoken site asked words behind.final := by
  cases behind with
  | more => exact h.ended
  | ended => exact h
  | channel inflates => exact h

namespace ConversationStage

/-- The request whose answer is due. -/
def current : ConversationStage → List Request
  | answer r | body r _ => [r]
  | head | skip .. => []

/-- What comes behind the words so far, as far as it is decided. -/
def behind : ConversationStage → Outlook
  | skip _ behind => behind
  | head | answer _ | body .. => .more

end ConversationStage

variable (site) in
/-- A conversation that has said these words. -/
structure Conversation.Has (c : Conversation) (asked : List Request) (words : List Word) : Prop where
  spoken : Spoken site asked words c.stage.behind
  persistent_eq : c.persistent = Request.allKeepOpen (asked ++ c.stage.current)

theorem Conversation.Has.congr {c d : Conversation} (h : c.Has site asked words)
    (hbehind : d.stage.behind = c.stage.behind) (hcurrent : d.stage.current = c.stage.current)
    (hpersistent : d.persistent = c.persistent) : d.Has site asked words :=
  ⟨hbehind ▸ h.spoken, by rw [hpersistent, hcurrent, h.persistent_eq]⟩

theorem Conversation.Has.makeRoom {c : Conversation} (h : c.Has site asked words) :
    c.makeRoom.Has site asked words :=
  h.congr rfl rfl rfl

theorem Conversation.Has.spoken_of {c : Conversation} (h : c.Has site asked words)
    {stage : ConversationStage} (hs : c.stage = stage) : Spoken site asked words stage.behind :=
  hs ▸ h.spoken

/-- What a step has led to. -/
def ConversationStep.Has (site : Request → WebAnswer) (step : ConversationStep)
    (asked : List Request) (words : List Word) : Prop :=
  match step.outlook with
  | .more => step.conversation.Has site asked words
  | behind => Spoken site asked words behind

/-- A step answers requests and sends whole words, if no last one was sent before. -/
def ConversationStep.Adds (site : Request → WebAnswer) (step : ConversationStep)
    (asked : List Request) (words : List Word) : Prop :=
  (step.output ≠ [] → Spoken site asked words .more) ∧
    ∃ new, step.output = new.flatMap Word.bytes ∧ step.Has site (asked ++ step.asked) (words ++ new)

namespace ConversationStep

variable {step : ConversationStep}

/-- Nothing is sent. -/
theorem Adds.of_silent (houtput : step.output = []) (hasked : step.asked = [])
    (h : step.Has site asked words) : step.Adds site asked words :=
  ⟨fun hne => absurd houtput hne, [], houtput, by rwa [hasked, List.append_nil, List.append_nil]⟩

theorem Has.of_spoken (h : Spoken site asked words step.outlook)
    (hmore : step.outlook = .more → step.conversation.Has site asked words) :
    step.Has site asked words := by
  unfold Has
  split
  · next houtlook => exact hmore houtlook
  · exact h

theorem adds_after {r : Request} {output : Bytes} {new : List Word}
    (hmore : Spoken site asked words .more) (houtput : output = new.flatMap Word.bytes)
    (h : step.Adds site (asked ++ [r]) (words ++ new)) :
    (step.after r output).Adds site asked words := by
  obtain ⟨-, new', hnew, hhas⟩ := h
  refine ⟨fun _ => hmore, new ++ new', ?_, ?_⟩
  · rw [after, houtput, hnew, List.flatMap_append]
  · rwa [List.append_assoc, List.append_assoc] at hhas

end ConversationStep

namespace Conversation

open ConversationStep

variable {c : Conversation} {r : Request}

/-- An answer is a word, or nothing when it cannot be written. -/
theorem exists_word (h : Spoken site asked words .more)
    (hpersistent : c.persistent = Request.allKeepOpen (asked ++ [r])) :
    ∃ new, (c.answer site r).1 = new.flatMap Word.bytes ∧
      Spoken site (asked ++ [r]) (words ++ new) (c.answer site r).2 := by
  unfold Conversation.answer
  rw [hpersistent]
  dsimp only
  split
  · next hwritable =>
    refine ⟨[Word.answer site asked r], (List.flatMap_singleton _ _).symm, ?_⟩
    cases hopens : (site r).opens r.version with
    | some inflates => exact h.channel hopens hwritable
    | none =>
      dsimp only
      split
      · next hlast => exact h.last hopens hwritable hlast
      · next hlast => exact h.more hopens hwritable (Bool.eq_false_iff.2 hlast)
  · exact ⟨[], rfl, (List.append_nil words).symm ▸ h.dropped [r]⟩

theorem adds_giveUp {behind : Outlook} (h : Spoken site asked words behind) (rest : Bytes) :
    (c.giveUp behind rest).Adds site asked words :=
  .of_silent rfl rfl (.of_spoken h.final fun hmore => absurd hmore behind.final_ne_more)

theorem adds_hangUp (h : Spoken site asked words .more) : c.hangUp.Adds site asked words :=
  .of_silent rfl rfl h.ended

theorem adds_refuse (h : Spoken site asked words .more) (e : RequestFault) (rest : Bytes) :
    (c.refuse e rest).Adds site asked words := by
  unfold refuse
  dsimp only
  split
  · exact adds_hangUp h
  · refine ⟨fun _ => h, [Word.fault e c.version], (List.flatMap_singleton _ _).symm, ?_⟩
    exact (List.append_nil asked).symm ▸ h.fault e c.version

/-- What is said next when the answer to the request at hand is sent. -/
theorem adds_answer (h : c.Has site asked words) (hcurrent : c.stage.current = [r])
    {step : ConversationStep}
    (hstep : ∀ asked' words', Spoken site asked' words' (c.answer site r).2 →
      c.persistent = Request.allKeepOpen asked' → step.Adds site asked' words') :
    (step.after r (c.answer site r).1).Adds site asked words := by
  obtain ⟨hspoken, hpersistent⟩ := h
  have hbehind : c.stage.behind = .more := by
    cases hs : c.stage with
    | skip => rw [hs] at hcurrent; cases hcurrent
    | _ => rfl
  rw [hbehind] at hspoken
  rw [hcurrent] at hpersistent
  obtain ⟨new, hnew, hanswered⟩ := exists_word hspoken hpersistent
  exact adds_after hspoken hnew (hstep _ _ hanswered hpersistent)

/-- A step that sends no more than the answer. -/
theorem adds_answerOnly (h : c.Has site asked words) (hcurrent : c.stage.current = [r])
    {d : Conversation} (hs : d.stage = .head) (hpersistent : d.persistent = c.persistent) :
    ConversationStep.Adds site ⟨d, (c.answer site r).1, (c.answer site r).2, [r]⟩ asked words := by
  let rest : ConversationStep := ⟨d, [], (c.answer site r).2, []⟩
  have hanswer : (rest.after r (c.answer site r).1).Adds site asked words :=
    adds_answer h hcurrent fun asked' words' hspoken hasked =>
      .of_silent rfl rfl <| .of_spoken hspoken fun hmore => by
        refine ⟨?_, ?_⟩
        · rw [hs, ConversationStage.behind, ← hmore]
          exact hspoken
        · rw [hs, ConversationStage.current, List.append_nil, hpersistent, hasked]
  unfold ConversationStep.after at hanswer
  rwa [List.append_nil] at hanswer

theorem Has.begin (h : c.Has site asked words) (hs : c.stage = .head) (rest : Bytes) :
    (c.begin r rest).Has site asked words := by
  have hspoken := h.spoken_of hs
  have hpersistent := h.persistent_eq
  rw [hs, ConversationStage.current, List.append_nil] at hpersistent
  have hfirst : (firstStage r).behind = .more ∧ (firstStage r).current = [r] := by
    unfold firstStage
    split <;> exact ⟨rfl, rfl⟩
  refine ⟨?_, ?_⟩
  · show Spoken site asked words (firstStage r).behind
    rwa [hfirst.1]
  · show (c.persistent && r.keepsOpen) = Request.allKeepOpen (asked ++ (firstStage r).current)
    rw [hfirst.2, hpersistent]
    simp [Request.allKeepOpen]

/-- A step that waits for bytes says nothing. -/
theorem adds_await {stage : ConversationStage} (h : c.Has site asked words)
    (hbehind : stage.behind = c.stage.behind) (hcurrent : stage.current = c.stage.current) :
    (c.await stage).Adds site asked words :=
  .of_silent rfl rfl (h.congr (d := c.go stage []) hbehind hcurrent rfl)

/-- Whatever bytes are there, going on says whole words only. -/
theorem adds_advance (h : c.Has site asked words) : (advance site c).Adds site asked words := by
  fun_induction advance site c generalizing asked words with
  | case1 c hs hr =>
    exact .of_silent rfl rfl (h.congr (d := { c with known := c.unread.length }) rfl rfl rfl)
  | case2 c hs e rest hr => exact adds_refuse (h.spoken_of hs) e rest
  | case3 c hs r rest hr ih => exact ih (h.begin hs rest)
  | case4 c r hs hc => exact adds_await h (by rw [hs]) (by rw [hs])
  | case5 c r hs hc output ha ih =>
    obtain rfl : (c.answer site r).1 = output := by rw [ha]
    refine adds_answer h (by rw [hs]; rfl) fun asked' words' hspoken hpersistent => ih ⟨?_, ?_⟩
    · rwa [ha] at hspoken
    · exact (List.append_nil asked').symm ▸ hpersistent
  | case6 c r hs hc output behind hne ha =>
    have hanswer := adds_answerOnly (d := c.go .head c.unread) h (by rw [hs]; rfl) rfl rfl
    rwa [ha] at hanswer
  | case7 c r body hs hw output behind ha ih | case10 c r body hs hw _ _ _ output behind ha ih =>
    -- What comes behind the answer is decided, and kept while the body is skipped.
    obtain ⟨rfl, rfl⟩ : (c.answer site r).1 = output ∧ (c.answer site r).2 = behind := by simp [ha]
    refine adds_answer h (by rw [hs]; rfl) fun asked' words' hspoken hpersistent => ih ⟨hspoken, ?_⟩
    exact (List.append_nil asked').symm ▸ hpersistent
  | case8 c r body hs hw rest hb ih => exact ih (h.congr (by rw [hs]; rfl) (by rw [hs]; rfl) rfl)
  | case9 c r body hs hw body' hb => exact adds_await h (by rw [hs]; rfl) (by rw [hs]; rfl)
  | case11 c r body hs hw rest hb output behind ha =>
    obtain ⟨rfl, rfl⟩ : (c.answer site r).1 = output ∧ (c.answer site r).2 = behind := by simp [ha]
    exact adds_answer h (by rw [hs]; rfl) fun asked' words' hspoken _ => adds_giveUp hspoken rest
  | case12 c body rest hb _ hs ih => exact ih (h.congr (by rw [hs]; rfl) (by rw [hs]; rfl) rfl)
  | case13 c body rest hb behind hs hne _ =>
    refine .of_silent rfl rfl (.of_spoken (h.spoken_of hs) ?_)
    rintro rfl
    exact absurd HEq.rfl (hne hs rfl)
  | case14 c body behind hs body' hb => exact adds_await h (by rw [hs]; rfl) (by rw [hs]; rfl)
  | case15 c body behind hs _ rest hb | case16 c body behind hs rest hb =>
    exact adds_giveUp (h.spoken_of hs) rest

theorem adds_take (h : c.Has site asked words) (chunk : Bytes) :
    (c.take site chunk).Adds site asked words :=
  adds_advance (h.congr rfl rfl rfl)

theorem adds_pause (h : c.Has site asked words) : (c.pause site).Adds site asked words := by
  unfold pause
  split
  · next hs => exact .of_silent rfl rfl h
  · next r hs => exact adds_answerOnly h (by rw [hs]; rfl) rfl rfl
  · next r body hs =>
    exact adds_answer h (by rw [hs]; rfl) fun _ _ hspoken _ => adds_giveUp hspoken []
  · next body behind hs => exact adds_giveUp (h.spoken_of hs) []

/-- A conversation that goes on although no chunk is there is between two requests. -/
theorem stage_pause (hmore : (c.pause site).outlook = .more) :
    (c.pause site).conversation.stage = .head := by
  unfold pause at hmore ⊢
  split at hmore
  · next hs => exact hs
  · rfl
  · exact absurd hmore (Outlook.final_ne_more _)
  · exact absurd hmore (Outlook.final_ne_more _)

theorem adds_stop (h : c.Has site asked words) :
    (c.stop site).Adds site asked words ∧ (c.stop site).outlook ≠ .more := by
  unfold stop
  split
  · next hs => exact ⟨adds_hangUp (h.spoken_of hs), nofun⟩
  · next r hs => exact ⟨adds_hangUp (h.spoken_of hs), nofun⟩
  · next r body hs =>
    exact ⟨adds_answer h (by rw [hs]; rfl) fun _ _ hspoken _ => adds_giveUp hspoken [],
      Outlook.final_ne_more _⟩
  · next body behind hs => exact ⟨adds_giveUp (h.spoken_of hs) [], behind.final_ne_more⟩

end Conversation

end Switchyard
