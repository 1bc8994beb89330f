import Switchyard.Proofs.Text.Utf8
import Switchyard.Proofs.WebSocket.Traffic

/-!
# Receiving what was sent

`Receiver.receive` takes all messages off the bytes that are there, and `Receiver.run` does so chunk by
chunk; where the bytes are cut does not matter (`run_eq_receive`). The messages of a client that does not
compress are received as they were sent (`Sends.receive`).
-/

namespace Switchyard

/-- The receiving end with more bytes to take. -/
def Receiver.feed (r : Receiver) (bs : Bytes) : Receiver :=
  { r with unread := r.unread ++ bs }

/-- What the next frame brings, with more bytes behind it. -/
def Received.feed (bs : Bytes) : Received → Received
  | hungry => hungry
  | message m r => message m (r.feed bs)
  | part r => part (r.feed bs)
  | broken => broken

namespace Receiver

/-- Takes all messages off the bytes that are there. No receiving end is left if the client has broken
a rule. -/
def receive (r : Receiver) : List Message × Option Receiver :=
  match _h : r.next with
  | .hungry => ([], some r)
  | .broken => ([], none)
  | .part r => r.receive
  | .message m r => (m :: r.receive.1, r.receive.2)
termination_by r.unread.length
decreasing_by all_goals exact unread_next_lt (congrArg Received.receiver? _h)

/-- Takes the messages off chunks that come in one after the other. -/
def run (r : Receiver) : List Bytes → List Message × Option Receiver
  | [] => r.receive
  | chunk :: chunks =>
    match r.receive with
    | (ms, none) => (ms, none)
    | (ms, some r) => (ms ++ ((r.feed chunk).run chunks).1, ((r.feed chunk).run chunks).2)

variable {r r' : Receiver} {m : Message}

theorem receive_of_message (h : r.next = .message m r') :
    r.receive = (m :: r'.receive.1, r'.receive.2) := by
  rw [receive]
  split <;> simp_all

theorem receive_of_part (h : r.next = .part r') : r.receive = r'.receive := by
  rw [receive]
  split <;> simp_all

theorem receive_of_hungry (h : r.next = .hungry) : r.receive = ([], some r) := by
  rw [receive]
  split <;> simp_all

theorem receive_of_broken (h : r.next = .broken) : r.receive = ([], none) := by
  rw [receive]
  split <;> simp_all

/-! ### Where the bytes are cut -/

theorem accept_feed (r : Receiver) (h : FrameHeader) (payload bs : Bytes) :
    (r.feed bs).accept h payload = (r.accept h payload).feed bs := by
  have hbelongs : (r.feed bs).belongsTo? h.opcode = r.belongsTo? h.opcode := rfl
  unfold accept
  rw [hbelongs]
  repeat' split
  all_goals rfl

theorem next_of_header {header : FrameHeader} (h : FrameHeader.read r.unread = .header header) :
    r.next =
      if !Opcode.isKnown header.opcode then .broken
      else if r.unread.length < header.total then .hungry
      else if isLegal header then
        accept { r with unread := r.unread.drop header.total } header
          (FrameHeader.unmask header.key
            ((r.unread.drop header.length).take header.payloadLength))
      else .broken := by
  rw [next, h]

/-- Once a frame is there, it does not matter what follows it. -/
theorem next_feed (bs : Bytes) (h : r.next ≠ .hungry) : (r.feed bs).next = r.next.feed bs := by
  -- The header is there, so it is read as before.
  have hread : FrameHeader.read r.unread ≠ .incomplete := by
    intro hincomplete
    refine h ?_
    rw [next, hincomplete]
  have hmore : FrameHeader.read (r.feed bs).unread = FrameHeader.read r.unread :=
    WireHeader.read_append hread bs
  cases hheader : FrameHeader.read r.unread with
  | incomplete => exact absurd hheader hread
  | tooLarge =>
    rw [next, hmore, hheader, next, hheader]
    rfl
  | header header =>
    rw [hheader] at hmore
    rw [next_of_header hheader] at h
    rw [next_of_header hmore, next_of_header hheader]
    split
    · rfl
    · next hknown =>
      rw [if_neg hknown] at h
      by_cases hshort : r.unread.length < header.total
      · rw [if_pos hshort] at h
        exact absurd rfl h
      · have htotal : header.length + header.payloadLength ≤ r.unread.length := Nat.not_lt.1 hshort
        have hlong : ¬ (r.feed bs).unread.length < header.total := by
          show ¬ (r.unread ++ bs).length < header.total
          rw [List.length_append]
          omega
        -- So are the payload and what follows the frame.
        have hrest : (r.unread ++ bs).drop header.total = r.unread.drop header.total ++ bs :=
          List.drop_append_of_le_length htotal
        have hpayload : ((r.unread ++ bs).drop header.length).take header.payloadLength =
            (r.unread.drop header.length).take header.payloadLength := by
          rw [List.drop_append_of_le_length (by omega),
            List.take_append_of_le_length (by rw [List.length_drop]; omega)]
        rw [if_neg hlong, if_neg hshort]
        split
        · rw [← accept_feed]
          show accept ⟨(r.unread ++ bs).drop header.total, r.message⟩ header
            (FrameHeader.unmask header.key
              (((r.unread ++ bs).drop header.length).take header.payloadLength)) = _
          rw [hrest, hpayload]
          rfl
        · rfl

/-- Messages that were there are taken off first. -/
theorem receive_feed (r : Receiver) (bs : Bytes) :
    (r.feed bs).receive =
      match r.receive with
      | (ms, none) => (ms, none)
      | (ms, some r) => (ms ++ (r.feed bs).receive.1, (r.feed bs).receive.2) := by
  fun_induction receive r with
  | case1 r h => rfl
  | case2 r h =>
    have hnext := next_feed bs (r := r) (by rw [h]; nofun)
    rw [h] at hnext
    rw [receive_of_broken hnext]
  | case3 r r' h ih =>
    have hnext := next_feed bs (r := r) (by rw [h]; nofun)
    rw [h] at hnext
    rw [receive_of_part hnext, ih]
  | case4 r m r' h ih =>
    have hnext := next_feed bs (r := r) (by rw [h]; nofun)
    rw [h] at hnext
    rw [receive_of_message hnext, ih]
    rcases r'.receive with ⟨ms, _ | r''⟩ <;> rfl

/-- **It does not matter in which chunks the bytes come in.** -/
theorem run_eq_receive (r : Receiver) (chunks : List Bytes) :
    r.run chunks = (r.feed chunks.flatten).receive := by
  induction chunks generalizing r with
  | nil =>
    have hfeed : r.feed [] = r := by rw [feed, List.append_nil]
    rw [run, List.flatten_nil, hfeed]
  | cons chunk chunks ih =>
    have hfeed : ∀ r : Receiver, r.feed (chunk ++ chunks.flatten) =
        (r.feed chunk).feed chunks.flatten := by
      intro r
      simp only [feed, List.append_assoc]
    rw [run, List.flatten_cons, receive_feed]
    rcases r.receive with ⟨ms, _ | r'⟩
    · rfl
    · dsimp only
      rw [ih, hfeed]

end Receiver

/-! ### Messages in parts -/

/-- The payloads so far and those that are to come make up a message. A text may be cut off inside a
character; its bytes and those to come are a text again. -/
structure PartialMessage.Gathers (p : PartialMessage) (m : Message) (sofar later : Bytes) : Prop where
  parts_eq : p.parts.reverse.flatten = sofar
  size_eq : p.size = sofar.length
  kind : (m = .binary (sofar ++ later) ∧ p.isText = false) ∨
    ∃ cs ds, m = .text cs ∧ p.isText = true ∧ sofar ++ later = Bytes.ofText cs ∧
      p.cut ++ later = Bytes.ofText ds

namespace PartialMessage

variable {p : PartialMessage} {m : Message} {sofar later payload : Bytes}

theorem gathers_start {opcode : UInt8} {bs : Bytes} (h : m.IsData opcode bs) :
    (start (opcode == Opcode.text)).Gathers m [] bs := by
  cases h with
  | binary bs => exact ⟨rfl, rfl, .inl ⟨rfl, rfl⟩⟩
  | text cs => exact ⟨rfl, rfl, .inr ⟨cs, cs, rfl, rfl, rfl, rfl⟩⟩

/-- A payload is taken in. -/
theorem Gathers.extend (h : p.Gathers m sofar (payload ++ later))
    (hsize : (sofar ++ payload).length ≤ maxSize) :
    ∃ p', p.extend payload = some p' ∧ p'.Gathers m (sofar ++ payload) later := by
  have hfits : ¬ maxSize < p.size + payload.length := by
    rw [h.size_eq, ← List.length_append]
    exact Nat.not_lt.2 hsize
  have hparts : (payload :: p.parts).reverse.flatten = sofar ++ payload := by
    rw [List.reverse_cons, List.flatten_append, h.parts_eq, List.flatten_singleton]
  have hlength : p.size + payload.length = (sofar ++ payload).length := by
    rw [h.size_eq, List.length_append]
  have hsplit : sofar ++ (payload ++ later) = sofar ++ payload ++ later :=
    (List.append_assoc _ _ _).symm
  unfold PartialMessage.extend
  dsimp only
  rw [if_neg hfits]
  rcases h.kind with ⟨hm, hbinary⟩ | ⟨cs, ds, hm, htext, hcs, hds⟩
  · rw [if_neg (by rw [hbinary]; exact Bool.false_ne_true)]
    exact ⟨_, rfl, hparts, hlength, .inl ⟨by rw [hm, hsplit], hbinary⟩⟩
  · -- The payload may end inside a character, which is then the cut.
    rw [← List.append_assoc] at hds
    obtain ⟨cut, es, hadvance, hes⟩ := Utf8.advance_of_append hds
    rw [if_pos htext, hadvance]
    exact ⟨_, rfl, hparts, hlength, .inr ⟨cs, es, hm, htext, by rw [← hsplit, hcs], hes⟩⟩

/-- The message is complete when nothing is to come. -/
theorem Gathers.complete (h : p.Gathers m sofar []) : p.complete = some m := by
  unfold PartialMessage.complete
  rw [h.parts_eq]
  rcases h.kind with ⟨rfl, hbinary⟩ | ⟨cs, ds, rfl, htext, hcs, -⟩
  · rw [if_neg (by rw [hbinary]; exact Bool.false_ne_true), List.append_nil]
  · rw [List.append_nil] at hcs
    rw [if_pos htext, hcs, Utf8.decode?_ofText]
    rfl

end PartialMessage

/-! ### Frames -/

namespace Receiver

variable {f : WireFrame} {m : Message} {rest : Bytes} {message : Option PartialMessage}
  {final : Bool} {opcode : UInt8}

/-- A frame that may be sent and is not compressed is accepted. -/
theorem next_of_isSent (hf : f.IsSent final false opcode) (hknown : Opcode.isKnown opcode = true)
    (hlength : f.payload.length ≤ maxMessage) :
    next ⟨f.bytes ++ rest, message⟩ = accept ⟨rest, message⟩ f.header f.payload := by
  have hpayload : f.payloadLength ≤ maxMessage := by rwa [← f.length_payload]
  have hread := f.read_bytes hpayload rest
  have hopcode : Opcode.isKnown f.header.opcode = true := by
    rwa [WireHeader.header_opcode, hf.opcode_eq]
  have htotal : ¬ (f.bytes ++ rest).length < f.header.total := by
    rw [List.length_append, f.length_bytes]
    omega
  have htake : ((f.bytes ++ rest).drop f.header.length).take f.header.payloadLength =
      f.bytes.drop f.header.length := by
    have hle : f.header.length ≤ f.bytes.length := by
      rw [f.length_bytes]
      exact Nat.le_add_right _ _
    rw [List.drop_append_of_le_length hle, List.take_left']
    rw [List.length_drop, f.length_bytes, FrameHeader.total, Nat.add_sub_cancel_left]
  have hdrop : (f.bytes ++ rest).drop f.header.total = rest := List.drop_left' f.length_bytes
  rw [next_of_header hread, hopcode, if_neg (by decide), if_neg htotal, if_pos hf.isLegal]
  rw [htake, hdrop, f.unmask_drop_bytes]

theorem control?_of_isControl (h : m.IsControl opcode f.payload)
    (hlength : f.payload.length ≤ 125) :
    control? opcode f.payload = some m := by
  rw [control?, if_neg (Nat.not_lt.2 hlength)]
  generalize f.payload = bs at h
  cases h with
  | ping bs => rfl
  | pong bs => rfl
  | close => rfl
  | closeWith c =>
    -- The code is read back, and the reason is a text.
    have hcode : UInt16.ofNat (Bytes.toNat (Bytes.ofNat 2 c.code.toNat)) = c.code := by
      have hlt : c.code.toNat < Nat.pow 256 2 := c.code.toNat_lt
      rw [Bytes.toNat_ofNat, Nat.mod_eq_of_lt hlt, UInt16.ofNat_toNat]
    have hmessage : CloseFrame.message? c.payload = (Utf8.decode? (Bytes.ofText c.reason)).map
        fun reason => .close (some (CloseFrame.sanitize
          ⟨UInt16.ofNat (Bytes.toNat (Bytes.ofNat 2 c.code.toNat)), reason⟩)) := rfl
    rw [if_pos rfl, hmessage, Utf8.decode?_ofText, hcode]
    rfl

/-- A control frame brings its message, whatever message is under way. -/
theorem next_of_controls (hf : f.Controls m) :
    next ⟨f.bytes ++ rest, message⟩ = .message m ⟨rest, message⟩ := by
  obtain ⟨opcode, hm, hsent, hlength⟩ := hf
  have hmax : f.payload.length ≤ maxMessage := Nat.le_trans hlength (by decide)
  have hcontrol := control?_of_isControl hm hlength
  rw [next_of_isSent hsent hm.isKnown hmax, accept, WireHeader.header_opcode,
    WireHeader.header_final, hsent.opcode_eq, hm.isControl, hcontrol, hsent.final_eq]
  rfl

/-- A frame of data belongs to a message; it completes the message or leaves it under way. -/
theorem next_of_data (rest : Bytes) (message : Option PartialMessage) {p : PartialMessage}
    {sofar later : Bytes} (hf : f.IsSent final false opcode) (hknown : Opcode.isKnown opcode = true)
    (hcontrol : Opcode.isControl opcode = false)
    (hbelongs : belongsTo? ⟨rest, message⟩ opcode = some p)
    (hp : p.Gathers m sofar (f.payload ++ later)) (hlater : final = true → later = [])
    (hlength : (sofar ++ f.payload).length ≤ maxMessage) :
    ∃ p' : PartialMessage, p'.Gathers m (sofar ++ f.payload) later ∧
      next ⟨f.bytes ++ rest, message⟩ =
        if final then .message m ⟨rest, none⟩ else .part ⟨rest, some p'⟩ := by
  have hpayload : f.payload.length ≤ maxMessage := by
    rw [List.length_append] at hlength
    omega
  obtain ⟨p', hextend, hp'⟩ := hp.extend (Nat.le_trans hlength (by decide))
  refine ⟨p', hp', ?_⟩
  rw [next_of_isSent hf hknown hpayload, accept, WireHeader.header_opcode, WireHeader.header_final,
    hf.opcode_eq, hf.final_eq, hcontrol, if_neg Bool.false_ne_true, hbelongs, Option.bind_some,
    hextend]
  cases final with
  | false => rfl
  | true =>
    rw [hlater rfl] at hp'
    dsimp only
    rw [if_pos rfl, if_pos rfl, hp'.complete]

/-! ### Messages -/

/-- The frames that go on with a message bring the control messages between them, and the message. -/
theorem receive_of_continues {p : PartialMessage} {sofar bs : Bytes} {controls : List Message}
    {fs : List WireFrame} (h : Continues bs controls fs) (hp : p.Gathers m sofar bs)
    (hlength : (sofar ++ bs).length ≤ maxMessage) (rest : Bytes) :
    receive ⟨WireFrame.join fs ++ rest, some p⟩ =
      (controls ++ m :: (receive ⟨rest, none⟩).1, (receive ⟨rest, none⟩).2) := by
  induction h generalizing p sofar with
  | @last f hf =>
    rw [WireFrame.join_cons, WireFrame.join_nil, List.append_nil]
    rw [← List.append_nil f.payload] at hp
    obtain ⟨p', -, hnext⟩ := next_of_data rest (some p) hf rfl rfl rfl hp
      (fun _ => rfl) hlength
    exact receive_of_message hnext
  | @next f bs controls fs hf h ih =>
    rw [← List.append_assoc] at hlength
    have hle : (sofar ++ f.payload).length ≤ maxMessage := by
      rw [List.length_append] at hlength
      omega
    rw [WireFrame.join_cons, List.append_assoc]
    obtain ⟨p', hp', hnext⟩ := next_of_data (WireFrame.join fs ++ rest) (some p) hf rfl rfl rfl hp
      nofun hle
    rw [receive_of_part hnext]
    exact ih hp' hlength
  | control hf _ ih =>
    rw [WireFrame.join_cons, List.append_assoc, receive_of_message (next_of_controls hf),
      ih hp hlength]
    rfl

theorem receive_of_carried {bs : Bytes} {controls : List Message} {fs : List WireFrame}
    (hm : m.IsData opcode bs) (hlength : bs.length ≤ maxMessage)
    (h : Carried false opcode bs controls fs) (rest : Bytes) :
    receive ⟨WireFrame.join fs ++ rest, none⟩ =
      (controls ++ m :: (receive ⟨rest, none⟩).1, (receive ⟨rest, none⟩).2) := by
  have hp := PartialMessage.gathers_start hm
  have hbelongs : ∀ rest, belongsTo? ⟨rest, none⟩ opcode =
      some (PartialMessage.start (opcode == Opcode.text)) := by
    intro rest
    rw [belongsTo?, if_neg hm.ne_continuation]
    rfl
  cases h with
  | @whole f hf =>
    rw [WireFrame.join_cons, WireFrame.join_nil, List.append_nil]
    rw [← List.append_nil f.payload] at hp
    obtain ⟨p', -, hnext⟩ := next_of_data rest none hf hm.isKnown hm.not_isControl
      (hbelongs rest) hp (fun _ => rfl) hlength
    exact receive_of_message hnext
  | @split f bs _ fs hf h =>
    have hle : ([] ++ f.payload).length ≤ maxMessage := by
      rw [List.length_append] at hlength
      rw [List.nil_append]
      omega
    rw [WireFrame.join_cons, List.append_assoc]
    obtain ⟨p', hp', hnext⟩ := next_of_data (WireFrame.join fs ++ rest) none hf hm.isKnown
      hm.not_isControl (hbelongs _) hp nofun hle
    rw [receive_of_part hnext]
    exact receive_of_continues h hp' hlength rest

end Receiver

/-- **What is sent without compression is received**, in order and up to the end. -/
theorem Sends.receive {history : Bytes} {ms : List Message} {fs : List WireFrame}
    (h : Sends false history ms fs) :
    Receiver.receive ⟨WireFrame.join fs, none⟩ = (ms, some .start) := by
  induction h with
  | done => exact Receiver.receive_of_hungry rfl
  | control hf _ ih =>
    rw [WireFrame.join_cons, Receiver.receive_of_message (Receiver.next_of_controls hf), ih]
  | plain hm hlength hfs _ ih =>
    rw [WireFrame.join_append, Receiver.receive_of_carried hm (Nat.le_of_lt hlength) hfs, ih]
  | compressed hcompresses => cases hcompresses

end Switchyard
