import Switchyard.Web.Serving

/-!
# What a conversation depends on

A conversation knows the web side by its answers to requests. Two web sides that agree on the requests
which a conversation answers are the same to it: it sends the same bytes, waits for the same ones and
ends in the same way. The steps of a conversation are stated stage by stage, without the proofs that
they end.
-/

namespace Switchyard

namespace Conversation

variable {site site' : Request → WebAnswer} {c : Conversation}

/-! ### Stage by stage -/

theorem advance_head (hs : c.stage = .head) :
    advance site c = match c.nextRequest with
      | .short => ⟨{ c with known := c.unread.length }, [], .more, []⟩
      | .fault e rest => c.refuse e rest
      | .request r rest => advance site (c.begin r rest) := by
  rw [advance.eq_def]
  split
  · split <;> simp only [*]
  all_goals next h => cases hs.symm.trans h

theorem advance_answer {r : Request} (hs : c.stage = .answer r) :
    advance site c =
      if c.unread = [] then c.await (.answer r)
      else if (c.answer site r).2 = .more then
        (advance site (c.go .head c.unread).release).after r (c.answer site r).1
      else ⟨c.go .head c.unread, (c.answer site r).1, (c.answer site r).2, [r]⟩ := by
  rw [advance.eq_def]
  split
  case h_2 h =>
    cases hs.symm.trans h
    rcases c.answer site r with ⟨output, behind⟩
    cases behind <;> rfl
  all_goals next h => cases hs.symm.trans h

/-- A request without a body waits for a sign of its client. -/
theorem advance_of_request {r : Request} (hs : c.stage = .head)
    (hr : c.nextRequest = .request r []) (hbody : Body.ofFraming r.framing = none) :
    advance site c = (c.begin r []).await (.answer r) := by
  have hstage : (c.begin r []).stage = .answer r := by
    simp only [begin, lend, go, firstStage, hbody]
  rw [advance_head hs, hr]
  exact (advance_answer hstage).trans (if_pos rfl)

theorem advance_body {r : Request} {body : Body} (hs : c.stage = .body r body) :
    advance site c =
      if r.awaitsContinue then
        (advance site (c.go (.skip body (c.answer site r).2) c.unread).release).after r
          (c.answer site r).1
      else match body.read c.unread with
        | .ended rest => advance site ((c.go (.answer r) rest).lend body.isCounted)
        | .hungry body => c.await (.body r body)
        | .part body rest =>
          (advance site (c.go (.skip body (c.answer site r).2) rest).release).after r
            (c.answer site r).1
        | .lost rest => (c.giveUp (c.answer site r).2 rest).after r (c.answer site r).1 := by
  rw [advance.eq_def]
  split
  case h_3 h =>
    cases hs.symm.trans h
    split
    · rfl
    · split <;> simp only [*]
  all_goals next h => cases hs.symm.trans h

theorem advance_skip {body : Body} {behind : Outlook} (hs : c.stage = .skip body behind) :
    advance site c = match body.read c.unread with
      | .ended rest =>
        if behind = .more then advance site (c.go .head rest)
        else ⟨c.go .head rest, [], behind, []⟩
      | .hungry body => c.await (.skip body behind)
      | .part _ rest => c.giveUp behind rest
      | .lost rest => c.giveUp behind rest := by
  rw [advance.eq_def]
  split
  case h_4 h =>
    cases hs.symm.trans h
    split <;> simp only [*]
    cases behind <;> rfl
  all_goals next h => cases hs.symm.trans h

/-! ### The answers that count -/

theorem answer_congr {r : Request} (h : site' r = site r) :
    c.answer site' r = c.answer site r := by
  simp only [answer, h]

/-- Going on depends only on the answers to the requests that are answered on the way. -/
theorem advance_congr (h : ∀ r ∈ (advance site c).asked, site' r = site r) :
    advance site' c = advance site c := by
  -- In every case the other web side takes the same branch, by the equation of the stage.
  fun_induction advance site c with
  | case1 c hs hr => rw [advance_head hs, hr]
  | case2 c hs e rest hr => rw [advance_head hs, hr]
  | case3 c hs r rest hr ih =>
    rw [advance_head hs, hr]
    exact ih h
  | case4 c r hs hc => rw [advance_answer hs, if_pos hc]
  | case5 c r hs hc output ha ih =>
    rw [advance_answer hs, if_neg hc, answer_congr (h r (.head _)), ha, if_pos rfl,
      ih fun r hr => h r (.tail _ hr)]
  | case6 c r hs hc output behind hne ha =>
    rw [advance_answer hs, if_neg hc, answer_congr (h r (.head _)), ha, if_neg hne]
  | case7 c r body hs hw output behind ha ih =>
    rw [advance_body hs, if_pos hw, answer_congr (h r (.head _)), ha,
      ih fun r hr => h r (.tail _ hr)]
  | case8 c r body hs hw rest hb ih =>
    rw [advance_body hs, if_neg hw, hb]
    exact ih h
  | case9 c r body hs hw body' hb => rw [advance_body hs, if_neg hw, hb]
  | case10 c r body hs hw body' rest hb output behind ha ih =>
    rw [advance_body hs, if_neg hw, hb, answer_congr (h r (.head _)), ha]
    exact congrArg (ConversationStep.after r output) (ih fun r hr => h r (.tail _ hr))
  | case11 c r body hs hw rest hb output behind ha =>
    rw [advance_body hs, if_neg hw, hb, answer_congr (h r (.head _)), ha]
  | case12 c body rest hb _ hs ih =>
    rw [advance_skip hs, hb]
    exact ih h
  | case13 c body rest hb behind hs hne _ =>
    have hbehind : behind ≠ .more := by
      rintro rfl
      exact hne hs rfl HEq.rfl
    rw [advance_skip hs, hb]
    exact if_neg hbehind
  | case14 c body behind hs body' hb => rw [advance_skip hs, hb]
  | case15 c body behind hs body' rest hb => rw [advance_skip hs, hb]
  | case16 c body behind hs rest hb => rw [advance_skip hs, hb]

theorem take_congr {chunk : Bytes} (h : ∀ r ∈ (c.take site chunk).asked, site' r = site r) :
    c.take site' chunk = c.take site chunk :=
  advance_congr h

theorem pause_congr (h : ∀ r ∈ (c.pause site).asked, site' r = site r) :
    c.pause site' = c.pause site := by
  unfold pause at h ⊢
  split at h
  · rfl
  · next r hs => rw [answer_congr (h r (.head _))]
  · next r _ hs => rw [answer_congr (h r (.head _))]
  · rfl

theorem stop_congr (h : ∀ r ∈ (c.stop site).asked, site' r = site r) :
    c.stop site' = c.stop site := by
  unfold stop at h ⊢
  split at h
  · rfl
  · rfl
  · next r _ hs => rw [answer_congr (h r (.head _))]
  · rfl

end Conversation

/-! ### On a stream -/

namespace WebPoll

variable {σ : Type} [ByteStream σ] {site site' : Request → WebAnswer}

/-- After its last step a conversation is over, whether its client takes the answer or not. -/
theorem settle_of_ended (stream : σ) {step : ConversationStep} (h : step.outlook = .ended) :
    ∃ stream', settle stream step = .ended stream' := by
  unfold settle
  split
  · rw [h]
    exact ⟨_, rfl⟩
  · exact ⟨_, rfl⟩

theorem ofStream_of_pending {stream behind : σ} {c : Conversation}
    (hr : ByteStream.read c.makeRoom.room stream = (.pending, behind)) :
    ofStream site stream c = last behind (c.makeRoom.pause site) := by
  rw [ofStream.eq_def]
  split
  case h_1 h =>
    cases hr.symm.trans h
    rfl
  all_goals next h => cases hr.symm.trans h

theorem ofStream_of_end {answer : Poll Bytes} {stream behind : σ} {c : Conversation}
    (hr : ByteStream.read c.makeRoom.room stream = (answer, behind))
    (hend : answer = .ready [] ∨ ∃ e, answer = .failed e) :
    ofStream site stream c = last behind (c.makeRoom.stop site) := by
  rw [ofStream.eq_def]
  split
  case h_2 h | h_3 h =>
    cases hr.symm.trans h
    rfl
  all_goals
    next h =>
      cases hr.symm.trans h
      rcases hend with hend | ⟨e, hend⟩ <;> cases hend

/-- What a conversation does with a chunk, and then with what is left to be read. -/
theorem ofStream_of_chunk {b : UInt8} {bs : Bytes} {stream behind : σ} {c : Conversation}
    (hr : ByteStream.read c.makeRoom.room stream = (.ready (b :: bs), behind)) :
    ofStream site stream c =
      match settle behind (c.makeRoom.take site (b :: bs)) with
      | .waiting stream c' =>
        ((ofStream site stream c').1,
          (c.makeRoom.take site (b :: bs)).asked ++ (ofStream site stream c').2)
      | .ended stream => (.ended stream, (c.makeRoom.take site (b :: bs)).asked)
      | .channel stream inflates =>
        (.channel stream inflates, (c.makeRoom.take site (b :: bs)).asked) := by
  rw [ofStream.eq_def]
  split
  case h_4 h =>
    cases hr.symm.trans h
    dsimp only
    split <;> simp only [*]
  all_goals next h => cases hr.symm.trans h

/-- A conversation depends only on the answers to the requests that it answers. -/
theorem ofStream_congr {stream : σ} {c : Conversation}
    (h : ∀ r ∈ (ofStream site stream c).2, site' r = site r) :
    ofStream site' stream c = ofStream site stream c := by
  fun_induction ofStream site stream c with
  | case1 stream c behind hr => rw [ofStream_of_pending hr, last, last, Conversation.pause_congr h]
  | case2 stream c e behind hr =>
    rw [ofStream_of_end hr (.inr ⟨e, rfl⟩), last, last, Conversation.stop_congr h]
  | case3 stream c behind hr =>
    rw [ofStream_of_end hr (.inl rfl), last, last, Conversation.stop_congr h]
  | case4 stream c b bs behind hr step stream' c' hs result asked hrest ih =>
    have hrest' : ofStream site' stream' c' = (result, asked) :=
      (ih fun r hr => h r (List.mem_append_right _ (by rwa [hrest] at hr))).trans hrest
    rw [ofStream_of_chunk hr, Conversation.take_congr fun r hr => h r (List.mem_append_left _ hr),
      (hs : settle behind (c.makeRoom.take site (b :: bs)) = _)]
    dsimp only
    rw [hrest']
  | case5 stream c b bs behind hr step stream' hs =>
    rw [ofStream_of_chunk hr, Conversation.take_congr h,
      (hs : settle behind (c.makeRoom.take site (b :: bs)) = _)]
  | case6 stream c b bs behind hr step stream' inflates hs =>
    rw [ofStream_of_chunk hr, Conversation.take_congr h,
      (hs : settle behind (c.makeRoom.take site (b :: bs)) = _)]

end WebPoll

end Switchyard
