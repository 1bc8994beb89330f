import Switchyard.Proofs.Http.Scanning
import Switchyard.Proofs.Web.Upgrading

/-!
# Answers that are due

A conversation owes its client the answers to the requests whose heads it was sent in full: refusals that
leave it open, up to an answer of any kind (`Owed`). However these bytes are cut, a step pays a part of
what is due, and what is not paid yet is still due (`Conversation.Due`); when the client waits, all of
it is paid.
-/

namespace Switchyard

open Conversation (maxHead)

/-! ### Heads that are found -/

namespace Conversation

theorem hasEmptyLine_append (front : Bytes) {bs : Bytes} (h : hasEmptyLine bs = true) :
    hasEmptyLine (front ++ bs) = true := by
  induction front with
  | nil => exact h
  | cons b front ih => rw [List.cons_append, hasEmptyLine, ih, Bool.or_true]

/-- Not all of the empty line at the end of a head can have been looked at before the head was there. -/
theorem hasEmptyLine_of_isHead {head : Bytes} {r : Request} (h : Request.IsHead head r) {known : Nat}
    (hknown : known < head.length) (rest : Bytes) :
    hasEmptyLine ((head ++ rest).drop (known - 3)) = true := by
  obtain ⟨front, rfl | rfl⟩ := Request.endsEmpty_of_read h
  all_goals
    simp only [List.length_append, List.length_cons, List.length_nil] at hknown
    rw [List.append_assoc, List.drop_append_of_le_length (by omega)]
    exact hasEmptyLine_append _ (by simp [hasEmptyLine])

/-- What a conversation knows about its bytes is right. -/
structure Scanned (c : Conversation) : Prop where
  known_le : c.known ≤ c.unread.length
  short : Request.read (c.unread.take c.known) = .short

theorem Scanned.of_known {c : Conversation} (h : c.known = 0) : c.Scanned := by
  refine ⟨h ▸ Nat.zero_le _, ?_⟩
  rw [h, List.take_zero]
  rfl

/-- A head is found as soon as all of it is there. -/
theorem nextRequest_cases {c : Conversation} (hc : c.Scanned) {head more behind : Bytes} {r : Request}
    (h : Request.IsHead head r) (hle : head.length ≤ maxHead)
    (hbs : c.unread ++ more = head ++ behind) :
    c.nextRequest = .short ∧ Request.read c.unread = .short ∨
      ∃ rest, behind = rest ++ more ∧ c.nextRequest = .request r rest := by
  rcases h.read_cases hbs with ⟨hlt, hshort⟩ | ⟨rest, hunread, hbehind, hread⟩
  · have hreading : c.reading = .short := by
      unfold reading
      split
      · exact hshort
      · rfl
    refine .inl ⟨?_, hshort⟩
    rw [nextRequest, hreading]
    exact if_neg (by omega)
  · have hlooks : c.known = 0 ∨ hasEmptyLine (c.unread.drop (c.known - 3)) = true := by
      rw [hunread]
      refine .inr (hasEmptyLine_of_isHead h (Nat.lt_of_not_le fun hknown => ?_) rest)
      -- What is known to be no complete head would have this one in front.
      have hfront := hc.short
      rw [hunread, List.take_append, List.take_of_length_le hknown, h.read_append] at hfront
      cases hfront
    refine .inr ⟨rest, hbehind, ?_⟩
    rw [nextRequest, reading, if_pos hlooks, hread]

end Conversation

/-! ### What is due -/

namespace Request

/-- A request that fails to open a channel and leaves the connection open: it has no body, and its client
does not ask for an end. -/
structure FailsOpenly (r : Request) : Prop where
  asks : r.asksForWebSocket = true
  not_granted : ¬ Handshake.Grants r
  version_eq : r.version = .http11
  framing_eq : r.framing = .empty
  noClose : (r.values "connection").any (Http.lists "close") = false

theorem eq_ok_of_bind {ε α β : Type} {x : Except ε α} {f : α → Except ε β} {b : β}
    (h : x >>= f = .ok b) : ∃ a, x = .ok a ∧ f a = .ok b := by
  cases x with
  | error e => cases h
  | ok a => exact ⟨a, rfl, h⟩

/-- A request that names a coding has chunks, if it is a request. -/
theorem values_of_framing {version : HttpVersion} {fields : List HeaderField}
    (h : Framing.ofFields version fields = .ok .empty) :
    Http.valuesOf "transfer-encoding" fields = [] := by
  obtain ⟨counted, -, h⟩ := eq_ok_of_bind h
  cases hlast : (Http.valuesOf "transfer-encoding" fields).getLast? with
  | none => exact List.getLast?_eq_none_iff.1 hlast
  | some coding =>
    rw [hlast] at h
    dsimp only at h
    split at h <;> cases h

theorem framing_of_read {bs rest : Bytes} {r : Request} (h : read bs = .request r rest) :
    Framing.ofFields r.version r.fields = .ok r.framing := by
  unfold read at h
  split at h
  · next head behind _ =>
    split at h
    · next r' hr =>
      cases h
      unfold ofHead at hr
      split at hr
      · cases hr
      · obtain ⟨framing, hframing, hr⟩ := eq_ok_of_bind hr
        cases hr
        exact hframing
    · cases h
  · cases h
  · cases h

theorem keepsOpen_of_isHead {head : Bytes} {r : Request} (h : IsHead head r)
    (hr : r.FailsOpenly) : r.keepsOpen = true := by
  have hcoding : r.values "transfer-encoding" = [] :=
    values_of_framing (hr.framing_eq ▸ framing_of_read h)
  simp [keepsOpen, hr.noClose, hr.version_eq, hcoding]

end Request

section

variable (site : Request → WebAnswer)

/-- The web side refuses requests that fail to open a channel. -/
def Refuses : Prop :=
  ∀ r, r.asksForWebSocket = true → ¬ Handshake.Grants r → site r = .page Handshake.refusal

/-- What a client is owed for its bytes: refusals as long as they leave the connection open, and an
answer of any kind. -/
inductive Owed : Bytes → Bytes → Prop
  | answer {head r} : Request.IsHead head r → head.length ≤ maxHead →
      (site r).response.isWritable r.method = true → (rest : Bytes) →
      Owed (head ++ rest) (Word.answer site [] r).bytes
  | refused {head r rest out} : Request.IsHead head r → head.length ≤ maxHead → r.FailsOpenly →
      Owed rest out → Owed (head ++ rest) ((Word.answer site [] r).bytes ++ out)

/-- What a conversation owes a client that will send more. -/
inductive Conversation.Due (c : Conversation) (more : Bytes) : Bytes → Prop
  | head {out} : c.stage = .head → c.persistent = true → c.Scanned →
      Owed site (c.unread ++ more) out → Due c more out
  | answer {r} : c.stage.current = [r] → c.persistent = r.keepsOpen →
      (site r).response.isWritable r.method = true → Due c more (Word.answer site [] r).bytes
  | refused {r out} : c.stage = .answer r → c.known = 0 → c.persistent = true →
      r.keepsOpen = true → r.FailsOpenly → Owed site (c.unread ++ more) out →
      Due c more ((Word.answer site [] r).bytes ++ out)

end

namespace Conversation

variable {site : Request → WebAnswer} {c : Conversation} {r : Request} {more out : Bytes}

theorem answer_of_writable (hpersistent : c.persistent = r.keepsOpen)
    (hwritable : (site r).response.isWritable r.method = true) :
    (c.answer site r).1 = (Word.answer site [] r).bytes := by
  have hall : Request.allKeepOpen ([] ++ [r]) = c.persistent := by
    rw [hpersistent, Request.allKeepOpen, List.nil_append, List.all_cons, List.all_nil,
      Bool.and_true]
  rw [(answer_of_isWritable hwritable).1, Word.answer, Word.bytes, hall]

theorem answer_of_failsOpenly (hsite : Refuses site) (hr : r.FailsOpenly)
    (hkeeps : r.keepsOpen = true) (hpersistent : c.persistent = true) :
    c.answer site r = ((Word.answer site [] r).bytes, .more) := by
  have hpage := hsite r hr.asks hr.not_granted
  have hwritable : Handshake.refusal.isWritable r.method = true :=
    Response.isWritable_of_ne (by decide) r.method
  have hmore : (if Handshake.refusal.isLast true = true then Outlook.ended else .more) = .more := by
    decide
  refine Prod.ext (answer_of_writable (hpersistent.trans hkeeps.symm) ?_) ?_
  · rw [hpage]
    exact hwritable
  · simp only [Conversation.answer, hpage, hpersistent, hr.version_eq, WebAnswer.response,
      WebAnswer.opens, Response.adapt, if_true, hwritable, hmore]

/-- A conversation that cannot go on without a chunk. -/
def Waits (c : Conversation) : Prop :=
  match c.stage with
  | .head => Request.read c.unread = .short
  | .answer _ => c.unread = []
  | .body .. | .skip .. => True

end Conversation

/-- A step has paid all that was due, or a part of it and owes the rest. -/
def ConversationStep.Pays (site : Request → WebAnswer) (step : ConversationStep)
    (more out : Bytes) : Prop :=
  out <+: step.output ∨
    ∃ later, out = step.output ++ later ∧ step.outlook = .more ∧
      step.conversation.Due site more later ∧ step.conversation.Waits

namespace Conversation

variable {site : Request → WebAnswer} {c : Conversation} {r : Request} {more out : Bytes}

/-- What is due for the bytes behind a head. -/
theorem due_begin {rest : Bytes} (hc : c.Scanned) (hpersistent : c.persistent = true)
    (howed : Owed site (c.unread ++ more) out) (hr : c.nextRequest = .request r rest) :
    (c.begin r rest).Due site more out := by
  have hstages : (firstStage r).current = [r] := by
    unfold firstStage
    split <;> rfl
  generalize hbs : c.unread ++ more = bs at howed
  cases howed with
  | @answer head r' hhead hle hwritable behind =>
    rcases nextRequest_cases hc hhead hle hbs with ⟨hshort, -⟩ | ⟨_, -, hnext⟩
    · cases hr.symm.trans hshort
    · cases hr.symm.trans hnext
      refine .answer hstages ?_ hwritable
      show (c.persistent && r.keepsOpen) = r.keepsOpen
      rw [hpersistent, Bool.true_and]
  | @refused head r' behind later hhead hle hfails howed =>
    rcases nextRequest_cases hc hhead hle hbs with ⟨hshort, -⟩ | ⟨_, hbehind, hnext⟩
    · cases hr.symm.trans hshort
    · cases hr.symm.trans hnext
      have hfirst : firstStage r = .answer r := by
        rw [firstStage, hfails.framing_eq]
        rfl
      have hkeeps := Request.keepsOpen_of_isHead hhead hfails
      refine .refused hfirst rfl ?_ hkeeps hfails ?_
      · show (c.persistent && r.keepsOpen) = true
        rw [hpersistent, hkeeps]
        rfl
      · exact hbehind ▸ howed

/-- As long as the next request is not there, its bytes are no complete head. -/
theorem nextRequest_of_owed {bs : Bytes} (howed : Owed site bs out) (hc : c.Scanned)
    (hbs : c.unread ++ more = bs) :
    c.nextRequest = .short ∧ Request.read c.unread = .short ∨
      ∃ r rest, c.nextRequest = .request r rest := by
  cases howed with
  | answer hhead hle _ behind | refused hhead hle _ _ =>
    rcases nextRequest_cases hc hhead hle hbs with hshort | ⟨rest, -, hnext⟩
    · exact .inl hshort
    · exact .inr ⟨_, rest, hnext⟩

theorem Due.of_head (h : c.Due site more out) (hs : c.stage = .head) :
    c.persistent = true ∧ c.Scanned ∧ Owed site (c.unread ++ more) out := by
  cases h with
  | head _ hpersistent hscanned howed => exact ⟨hpersistent, hscanned, howed⟩
  | answer hcurrent =>
    rw [hs] at hcurrent
    cases hcurrent
  | refused hs' => cases hs.symm.trans hs'

/-- At other stages the answer to the request at hand is due, and more only if the connection stays
open. -/
theorem Due.of_ne_head (hsite : Refuses site) (h : c.Due site more out) (hs : c.stage ≠ .head) :
    ∃ r, c.stage.current = [r] ∧ (out = (c.answer site r).1 ∧ c.persistent = r.keepsOpen ∧
          (site r).response.isWritable r.method = true ∨
        c.stage = .answer r ∧ (c.answer site r).2 = .more ∧ c.known = 0 ∧ c.persistent = true ∧
          ∃ later, out = (c.answer site r).1 ++ later ∧
            Owed site (c.unread ++ more) later) := by
  cases h with
  | head hs' => exact absurd hs' hs
  | @answer r hcurrent hpersistent hwritable =>
    exact ⟨r, hcurrent, .inl ⟨(answer_of_writable hpersistent hwritable).symm, hpersistent, hwritable⟩⟩
  | @refused r later hs' hknown hpersistent hkeeps hfails howed =>
    have hanswer := answer_of_failsOpenly hsite hfails hkeeps hpersistent
    exact ⟨r, by rw [hs']; rfl, .inr ⟨hs', by rw [hanswer], hknown, hpersistent, later,
      by rw [hanswer], howed⟩⟩

theorem Due.congr {c' : Conversation} (h : c.Due site more out) (hstage : c'.stage = c.stage)
    (hunread : c'.unread = c.unread) (hknown : c'.known = c.known)
    (hpersistent : c'.persistent = c.persistent) : c'.Due site more out := by
  cases h with
  | head hs hp hscanned howed =>
    refine .head (hstage.trans hs) (hpersistent.trans hp) ⟨?_, ?_⟩ (hunread ▸ howed)
    · rw [hknown, hunread]
      exact hscanned.known_le
    · rw [hknown, hunread]
      exact hscanned.short
  | answer hcurrent hp hwritable =>
    exact .answer (hstage ▸ hcurrent) (hpersistent.trans hp) hwritable
  | refused hs hk hp hkeeps hfails howed =>
    exact .refused (hstage.trans hs) (hknown.trans hk) (hpersistent.trans hp) hkeeps hfails
      (hunread ▸ howed)

theorem Due.makeRoom (h : c.Due site more out) : c.makeRoom.Due site more out :=
  h.congr rfl rfl rfl rfl

/-- While a body is read, its answer is all that is due. -/
theorem Due.of_body {body : Body} (hsite : Refuses site) (h : c.Due site more out)
    (hs : c.stage = .body r body) :
    out = (c.answer site r).1 ∧ c.persistent = r.keepsOpen ∧
      (site r).response.isWritable r.method = true := by
  obtain ⟨r', hcurrent, hpaid | ⟨hs', -⟩⟩ := h.of_ne_head hsite (by simp [hs])
  · rw [hs] at hcurrent
    cases hcurrent
    exact hpaid
  · cases hs.symm.trans hs'

theorem Due.not_skip {body : Body} {behind : Outlook} (hsite : Refuses site)
    (h : c.Due site more out) (hs : c.stage = .skip body behind) : False := by
  obtain ⟨r, hcurrent, -⟩ := h.of_ne_head hsite (by simp [hs])
  rw [hs] at hcurrent
  cases hcurrent

end Conversation

namespace ConversationStep

variable {site : Request → WebAnswer} {step : ConversationStep} {r : Request}
  {more out output : Bytes}

theorem pays_after (h : step.Pays site more out) :
    (step.after r output).Pays site more (output ++ out) := by
  rcases h with hpaid | ⟨later, hout, hmore, hdue⟩
  · exact .inl ((List.prefix_append_right_inj output).2 hpaid)
  · exact .inr ⟨later, by rw [hout, after, List.append_assoc], hmore, hdue⟩

theorem pays_after_paid (h : out = output) : (step.after r output).Pays site more out :=
  .inl (h ▸ List.prefix_append _ _)

end ConversationStep

namespace Conversation

open ConversationStep

variable {site : Request → WebAnswer} {c : Conversation} {r : Request} {more out : Bytes}

/-- Going on pays what is due for the bytes that are there. -/
theorem pays_advance (hsite : Refuses site) (h : c.Due site more out) :
    (advance site c).Pays site more out := by
  fun_induction advance site c generalizing out with
  | case1 c hs hr =>
    obtain ⟨hpersistent, hscanned, howed⟩ := h.of_head hs
    rcases nextRequest_of_owed howed hscanned rfl with ⟨-, hshort⟩ | ⟨r, rest, hnext⟩
    · refine .inr ⟨out, rfl, rfl, .head hs hpersistent ⟨Nat.le_refl _, ?_⟩ howed, ?_⟩
      · exact (congrArg Request.read List.take_length).trans hshort
      · rwa [Waits, hs]
    · cases hr.symm.trans hnext
  | case2 c hs e rest hr =>
    obtain ⟨-, hscanned, howed⟩ := h.of_head hs
    rcases nextRequest_of_owed howed hscanned rfl with ⟨hshort, -⟩ | ⟨r, rest, hnext⟩
    · cases hr.symm.trans hshort
    · cases hr.symm.trans hnext
  | case3 c hs r rest hr ih =>
    obtain ⟨hpersistent, hscanned, howed⟩ := h.of_head hs
    exact ih (due_begin hscanned hpersistent howed hr)
  | case4 c r hs hc => exact .inr ⟨out, rfl, rfl, h.congr hs.symm hc.symm rfl rfl, rfl⟩
  | case5 c r hs hc output ha ih =>
    obtain rfl : (c.answer site r).1 = output := by rw [ha]
    obtain ⟨r', hcurrent, ⟨hpaid, -⟩ | ⟨-, -, hknown, hpersistent, later, hout, howed⟩⟩ :=
      h.of_ne_head hsite (by simp [hs])
    all_goals
      rw [hs] at hcurrent
      cases hcurrent
    · exact pays_after_paid hpaid
    · rw [hout]
      exact pays_after (ih (.head rfl hpersistent (.of_known hknown) howed))
  | case6 c r hs hc output behind hne ha =>
    obtain ⟨r', hcurrent, ⟨hpaid, -⟩ | ⟨-, hmore, -⟩⟩ := h.of_ne_head hsite (by simp [hs])
    all_goals
      rw [hs] at hcurrent
      cases hcurrent
    · rw [ha] at hpaid
      exact .inl (hpaid ▸ List.prefix_rfl)
    · rw [ha] at hmore
      exact absurd hmore hne
  | case7 c r body hs hw output behind ha | case10 c r body hs hw _ _ _ output behind ha
  | case11 c r body hs hw _ _ output behind ha =>
    have hpaid := (h.of_body hsite hs).1
    rw [ha] at hpaid
    exact pays_after_paid hpaid
  | case8 c r body hs hw rest hb ih =>
    obtain ⟨hout, hpersistent, hwritable⟩ := h.of_body hsite hs
    rw [hout, answer_of_writable hpersistent hwritable]
    exact ih (.answer rfl hpersistent hwritable)
  | case9 c r body hs hw body' hb =>
    obtain ⟨hout, hpersistent, hwritable⟩ := h.of_body hsite hs
    refine .inr ⟨out, rfl, rfl, ?_, trivial⟩
    rw [hout, answer_of_writable hpersistent hwritable]
    exact .answer rfl hpersistent hwritable
  | case12 c body rest hb _ hs | case13 c body rest hb behind hs | case14 c body behind hs
  | case15 c body behind hs | case16 c body behind hs => exact (h.not_skip hsite hs).elim

/-- What is due for bytes that were taken is due when they are there. -/
theorem due_take {chunk : Bytes} (h : c.Due site (chunk ++ more) out) :
    Due site { c with unread := c.unread ++ chunk, intake := c.intake.record chunk.length } more
      out := by
  cases h with
  | head hs hpersistent hscanned howed =>
    refine .head hs hpersistent ⟨?_, ?_⟩ ?_
    · rw [List.length_append]
      exact Nat.le_add_right_of_le hscanned.known_le
    · exact (congrArg _ (List.take_append_of_le_length hscanned.known_le)).trans hscanned.short
    · exact (List.append_assoc _ _ _).symm ▸ howed
  | answer hcurrent hpersistent hwritable => exact .answer hcurrent hpersistent hwritable
  | refused hs hknown hpersistent hkeeps hfails howed =>
    exact .refused hs hknown hpersistent hkeeps hfails ((List.append_assoc _ _ _).symm ▸ howed)

theorem pays_take {chunk : Bytes} (hsite : Refuses site) (h : c.Due site (chunk ++ more) out) :
    (c.take site chunk).Pays site more out :=
  pays_advance hsite (due_take h)

theorem read_ne_short_of_owed {bs : Bytes} (h : Owed site bs out) : Request.read bs ≠ .short := by
  cases h with
  | answer hhead | refused hhead =>
    rw [hhead.read_append]
    nofun

/-- When the client waits, all that is due for its bytes is paid. -/
theorem pays_pause (hsite : Refuses site) (h : c.Due site more out) (hwaits : c.Waits) :
    (c.pause site).Pays site more out := by
  unfold pause
  split
  · next hs => exact .inr ⟨out, rfl, rfl, h, hwaits⟩
  · next r hs =>
    obtain ⟨r', hcurrent, ⟨hpaid, -⟩ | ⟨-, hmore, hknown, hpersistent, later, hout, howed⟩⟩ :=
      h.of_ne_head hsite (by simp [hs])
    all_goals
      rw [hs] at hcurrent
      cases hcurrent
    · exact .inl (hpaid ▸ List.prefix_rfl)
    · have hnil : c.unread = [] := by rwa [Waits, hs] at hwaits
      rw [hnil] at howed
      exact .inr ⟨later, hout, hmore, .head rfl hpersistent (.of_known hknown) howed, rfl⟩
  · next r body hs => exact pays_after_paid (h.of_body hsite hs).1
  · next body behind hs => exact (h.not_skip hsite hs).elim

/-- Between two requests nothing is due for the bytes that were taken. -/
theorem Due.ne_nil_of_waits (h : c.Due site more out) (hs : c.stage = .head) (hwaits : c.Waits) :
    more ≠ [] := by
  rintro rfl
  obtain ⟨-, -, howed⟩ := h.of_head hs
  rw [List.append_nil] at howed
  rw [Waits, hs] at hwaits
  exact read_ne_short_of_owed howed hwaits

/-! ### Room -/

/-- Going on changes nothing in how much is read at a time. -/
theorem wanted_advance (site : Request → WebAnswer) (c : Conversation) :
    (advance site c).conversation.intake.wanted = c.intake.wanted := by
  fun_induction advance site c with
  | case2 c _ e rest _ =>
    unfold refuse
    dsimp only
    split <;> rfl
  | case3 c _ r rest _ ih | case5 c r _ _ _ _ ih | case7 c r body _ _ _ _ _ ih
  | case8 c r body _ _ rest _ ih | case10 c r body _ _ _ _ _ _ _ _ ih | case12 c _ _ _ _ _ ih =>
    exact ih
  | _ => rfl

/-- Some room is always wanted. -/
theorem wanted_record_pos (i : Intake) (n : Nat) (h : 0 < i.wanted) : 0 < (i.record n).wanted := by
  have hmin : 0 < Intake.minWanted := by decide
  have hmax : 0 < Intake.maxWanted := by decide
  unfold Intake.record
  split
  · exact Nat.lt_min.2 ⟨Nat.mul_pos Nat.two_pos h, hmax⟩
  · split
    · exact h
    · split
      · exact Nat.lt_of_lt_of_le hmin (Nat.le_max_right _ _)
      · exact h

theorem wanted_pause (c : Conversation) :
    (c.pause site).conversation.intake.wanted = c.intake.wanted := by
  unfold pause
  split <;> rfl

theorem wanted_makeRoom (c : Conversation) : c.makeRoom.intake.wanted = c.intake.wanted := by
  simp only [makeRoom, Intake.reserve]
  repeat' split
  all_goals rfl

theorem room_makeRoom_pos (h : 0 < c.intake.wanted) : 0 < c.makeRoom.room :=
  Nat.lt_of_lt_of_le h (c.intake.wanted_le_room_reserve c.unread.length)

theorem wanted_take (c : Conversation) (chunk : Bytes) (h : 0 < c.intake.wanted) :
    0 < (c.take site chunk).conversation.intake.wanted := by
  rw [take, wanted_advance]
  exact wanted_record_pos c.intake chunk.length h

end Conversation

/-! ### On a stream -/

namespace PrefixedStream

/-- The client is there and may send more. -/
structure Calm (p : PrefixedStream Wire) : Prop where
  fault_eq : p.inner.fault = none
  ended_eq : p.inner.ended = false
  gone_eq : p.inner.gone = false

variable {p : PrefixedStream Wire}

theorem Calm.tell (h : p.Calm) (bs : Bytes) : (p.tell bs).Calm :=
  ⟨h.fault_eq, h.ended_eq, h.gone_eq⟩

/-- A read gives the next bytes of the client, as long as there are some. -/
theorem Calm.read_cases (h : p.Calm) {n : Nat} (hn : 0 < n) :
    p.unheard = [] ∧ ByteStream.read n p = (.pending, p) ∨
      ∃ b bs p', ByteStream.read n p = (.ready (b :: bs), p') ∧
        p.unheard = b :: bs ++ p'.unheard ∧ p'.Calm ∧ p'.inner.written = p.inner.written := by
  obtain ⟨front, sent, ended, fault, gone, written⟩ := p
  obtain ⟨rfl, rfl, rfl⟩ := h
  obtain ⟨n, rfl⟩ := Nat.exists_eq_succ_of_ne_zero (Nat.ne_of_gt hn)
  cases front with
  | cons b bs =>
    refine .inr ⟨b, bs.take n, ⟨bs.drop n, ⟨sent, false, none, false, written⟩⟩, rfl, ?_,
      ⟨rfl, rfl, rfl⟩, rfl⟩
    show b :: bs ++ sent = b :: bs.take n ++ (bs.drop n ++ sent)
    rw [List.cons_append, List.cons_append, ← List.append_assoc, List.take_append_drop]
  | nil =>
    cases sent with
    | nil => exact .inl ⟨rfl, rfl⟩
    | cons b bs =>
      refine .inr ⟨b, bs.take n, ⟨[], ⟨bs.drop n, false, none, false, written⟩⟩, rfl, ?_,
        ⟨rfl, rfl, rfl⟩, rfl⟩
      exact congrArg (b :: ·) (List.take_append_drop n bs).symm

end PrefixedStream

namespace WebPoll

variable {site : Request → WebAnswer} {c : Conversation} {p : PrefixedStream Wire}
  {more out : Bytes}

theorem settle_of_calm (h : p.Calm) (step : ConversationStep) :
    settle p step =
      match step.outlook with
      | .more => .waiting (p.tell step.output) step.conversation
      | .ended => .ended (p.tell step.output)
      | .channel inflates => .channel ⟨step.conversation.unread, p.tell step.output⟩ inflates := by
  rcases p.writeAll_cases step.output with hdone | ⟨-, hgone, -⟩
  · cases hbehind : step.outlook <;> simp only [settle, hdone, hbehind]
  · rw [h.gone_eq] at hgone
    cases hgone

theorem grows_settle (p : PrefixedStream Wire) (step : ConversationStep) :
    p.inner.written <+: (settle p step).stream.inner.written := by
  unfold settle
  rcases p.writeAll_cases step.output with hdone | ⟨-, -, hfailed⟩
  · rw [hdone]
    dsimp only
    split <;> exact List.prefix_append p.inner.written step.output
  · rw [hfailed]
    exact List.prefix_rfl

/-- No word is taken back. -/
theorem grows_ofStream (p : PrefixedStream Wire) (c : Conversation) :
    p.inner.written <+: (ofStream site p c).1.stream.inner.written := by
  fun_induction ofStream site p c with
  | case1 p c behind hr | case2 p c e behind hr | case3 p c behind hr =>
    have hwritten := (p.written_read c.makeRoom.room).1
    rw [hr] at hwritten
    exact hwritten ▸ grows_settle behind _
  | case4 p c b bs behind hr step p' c' hs result asked' hrest ih =>
    have hwritten := (p.written_read c.makeRoom.room).1
    have hsettle := grows_settle behind step
    rw [hr] at hwritten
    rw [hs, hwritten] at hsettle
    rw [hrest] at ih
    exact hsettle.trans ih
  | case5 p c b bs behind hr step p' hs | case6 p c b bs behind hr step p' inflates hs =>
    have hwritten := (p.written_read c.makeRoom.room).1
    have hsettle := grows_settle behind step
    rw [hr] at hwritten
    rw [hs, hwritten] at hsettle
    exact hsettle

/-- Between two requests something is due for bytes that are on the way and more that the client will
send. -/
structure Owes (site : Request → WebAnswer) (more out : Bytes) (p : PrefixedStream Wire)
    (c : Conversation) : Prop where
  calm : p.Calm
  stage_eq : c.stage = .head
  due : c.Due site (p.unheard ++ more) out
  waits : c.Waits
  wanted : 0 < c.intake.wanted

/-- A conversation whose client is there has paid all that is due, or owes the rest. -/
def Pays (site : Request → WebAnswer) (written more out : Bytes)
    (result : WebPoll (PrefixedStream Wire)) : Prop :=
  written ++ out <+: result.stream.inner.written ∨
    ∃ p c paid later, result = .waiting p c ∧ out = paid ++ later ∧
      p.inner.written = written ++ paid ∧ p.unheard = [] ∧ Owes site more later p c

variable {step : ConversationStep}

theorem written_settle (hp : p.Calm) (step : ConversationStep) :
    (settle p step).stream.inner.written = p.inner.written ++ step.output := by
  rw [settle_of_calm hp]
  split <;> rfl

/-- What a step pays is written. -/
theorem pays_settle (hp : p.Calm) (hnil : p.unheard = []) (h : step.Pays site more out)
    (hstage : step.outlook = .more → step.conversation.stage = .head)
    (hwanted : 0 < step.conversation.intake.wanted) :
    (settle p step).Pays site p.inner.written more out := by
  rcases h with hpaid | ⟨later, hout, hmore, hdue, hwaits⟩
  · refine .inl ?_
    rw [written_settle hp]
    exact (List.prefix_append_right_inj _).2 hpaid
  · rw [settle_of_calm hp, hmore]
    have htold : (p.tell step.output).unheard = [] := hnil
    have hdue' : step.conversation.Due site ((p.tell step.output).unheard ++ more) later := by
      rwa [htold, List.nil_append]
    exact .inr ⟨_, _, step.output, later, rfl, hout, rfl, hnil, hp.tell _, hstage hmore, hdue',
      hwaits, hwanted⟩

/-- What was paid before counts. -/
theorem Pays.before {written paid later : Bytes} {result : WebPoll (PrefixedStream Wire)}
    (h : result.Pays site (written ++ paid) more later) :
    result.Pays site written more (paid ++ later) := by
  rcases h with hpaid | ⟨p, c, paid', later', hresult, hlater, hwritten, hrest⟩
  · exact .inl (List.append_assoc _ _ _ ▸ hpaid)
  · refine .inr ⟨p, c, paid ++ paid', later', hresult, ?_, ?_, hrest⟩
    · rw [hlater, List.append_assoc]
    · rw [hwritten, List.append_assoc]

/-- However the bytes of a client come, all that is due for them is paid before it is waited for more. -/
theorem pays_ofStream (hsite : Refuses site) (hp : p.Calm) (hwanted : 0 < c.intake.wanted)
    (hdue : c.Due site (p.unheard ++ more) out) (hwaits : c.Waits) :
    (ofStream site p c).1.Pays site p.inner.written more out := by
  have hroom (c : Conversation) (h : 0 < c.intake.wanted) : 0 < c.makeRoom.intake.wanted := by
    rwa [c.wanted_makeRoom]
  fun_induction ofStream site p c generalizing out with
  | case1 p c behind hr =>
    rcases hp.read_cases (Conversation.room_makeRoom_pos hwanted) with
      ⟨hnil, hread⟩ | ⟨_, _, _, hread, -⟩
    · cases hr.symm.trans hread
      rw [hnil, List.nil_append] at hdue
      refine pays_settle hp hnil (Conversation.pays_pause hsite hdue.makeRoom hwaits)
        Conversation.stage_pause ?_
      rw [Conversation.wanted_pause]
      exact hroom c hwanted
    · cases hr.symm.trans hread
  | case2 p c e behind hr | case3 p c behind hr =>
    rcases hp.read_cases (Conversation.room_makeRoom_pos hwanted) with
      ⟨-, hread⟩ | ⟨_, _, _, hread, -⟩
    all_goals cases hr.symm.trans hread
  | case4 p c b bs behind hr step p' c' hs result asked' hrest =>
    rename_i ih
    rcases hp.read_cases (Conversation.room_makeRoom_pos hwanted) with
      ⟨-, hread⟩ | ⟨_, _, _, hread, hunheard, hcalm, hwritten⟩
    · cases hr.symm.trans hread
    · cases hr.symm.trans hread
      rw [hunheard, List.append_assoc] at hdue
      have hstep : step.Pays site (behind.unheard ++ more) out :=
        Conversation.pays_take hsite hdue.makeRoom
      rw [hrest] at ih
      rw [← hwritten]
      rcases hstep with hpaid | ⟨later, hout, hmore, hdue', hwaits'⟩
      · -- All is paid, and no word is taken back.
        have hrest' : p'.inner.written <+: (ofStream site p' c').1.stream.inner.written :=
          grows_ofStream p' c'
        have hpaid' := written_settle hcalm step
        rw [hs] at hpaid'
        rw [hrest] at hrest'
        have hwhole : behind.inner.written ++ step.output <+: result.stream.inner.written := by
          rw [← hpaid']
          exact hrest'
        exact .inl (((List.prefix_append_right_inj _).2 hpaid).trans hwhole)
      · rw [settle_of_calm hcalm, hmore] at hs
        cases hs
        rw [hout]
        exact Pays.before (ih (hcalm.tell _)
          (Conversation.wanted_take c.makeRoom (b :: bs) (hroom c hwanted)) hdue' hwaits')
  | case5 p c b bs behind hr step p' | case6 p c b bs behind hr step p' inflates =>
    rename_i hs
    rcases hp.read_cases (Conversation.room_makeRoom_pos hwanted) with
      ⟨-, hread⟩ | ⟨_, _, _, hread, hunheard, hcalm, hwritten⟩
    · cases hr.symm.trans hread
    · cases hr.symm.trans hread
      rw [hunheard, List.append_assoc] at hdue
      have hstep : step.Pays site (behind.unheard ++ more) out :=
        Conversation.pays_take hsite hdue.makeRoom
      rw [← hwritten]
      rcases hstep with hpaid | ⟨later, hout, hmore, -⟩
      · have hpaid' := written_settle hcalm step
        rw [hs] at hpaid'
        refine .inl ?_
        rw [hpaid']
        exact (List.prefix_append_right_inj _).2 hpaid
      · rw [settle_of_calm hcalm, hmore] at hs
        cases hs

end WebPoll

end Switchyard
