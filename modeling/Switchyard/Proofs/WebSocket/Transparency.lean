import Switchyard.Proofs.Deflate.Messages
import Switchyard.Proofs.WebSocket.InflateStream
import Switchyard.Proofs.WebSocket.Receiving
import Switchyard.Session.Session

/-!
# Compression is transparent

What a stream hands up for a client that compresses is a way to send the same messages without
compression (`Sends.expanded`). So the messages are received as if none of them had been compressed,
whatever the chunks, reads and interruptions (`receives_of_sends`).
-/

namespace Switchyard

namespace Expander

variable {x : Expander} {f : WireFrame} {fs : List WireFrame} {m : Gathering}

/-! ### Frames -/

/-- A frame that stays as it is. -/
theorem process_of_isPlain (hf : f.IsPlain x.walk.message) (hlength : f.payload.length ≤ maxMessage)
    (rest : Bytes) : x.process (f.bytes ++ rest) = (x.process rest).behind f.bytes := by
  rw [process_frame x (by rwa [← f.length_payload]), frame_of_isPlain hf]

theorem process_of_controls {c : Message} (hf : f.Controls c) (rest : Bytes) :
    x.process (f.bytes ++ rest) = (x.process rest).behind f.bytes := by
  obtain ⟨opcode, hc, hsent, hlength⟩ := hf
  refine process_of_isPlain (.inl ?_) (Nat.le_trans hlength (by decide)) rest
  rw [hsent.opcode_eq]
  exact hc.isControl

/-- A frame with which a compressed message goes on. -/
theorem process_of_joins (hx : x.IsSound) (hf : f.Joins x.walk.message m)
    (hlength : m.payload.length ≤ maxMessage) (hpayload : f.payload.length ≤ maxMessage)
    (hfinal : f.final = false) (rest : Bytes) :
    ∃ y : Expander, y.IsSound ∧ y.inflater = x.inflater ∧ y.walk.message = some m ∧
      x.process (f.bytes ++ rest) = y.process rest := by
  obtain ⟨hsound, hwalk⟩ := isSound_extend hx hf
  refine ⟨_, hsound, rfl, congrArg Walk.message hwalk, ?_⟩
  rw [process_frame x (by rwa [← f.length_payload]), frame_of_joins hx hf hlength, hfinal]
  rfl

/-- The frame with which it ends. -/
theorem process_of_last (hx : x.IsSound) (hf : f.Joins x.walk.message m)
    (hlength : m.payload.length ≤ maxMessage) (hpayload : f.payload.length ≤ maxMessage)
    (hfinal : f.final = true) {plain : Bytes} {i : Inflater}
    (hi : x.inflater.inflate m.payload = (.ok plain, i)) (rest : Bytes) :
    x.process (f.bytes ++ rest) =
      (process ⟨i, none⟩ rest).behind (maskedFrame m.opcode plain) := by
  rw [process_frame x (by rwa [← f.length_payload]), frame_of_joins hx hf hlength, hfinal,
    if_pos rfl, hi]

/-! ### Messages -/

/-- The frames that go on with a compressed message give the control frames between them, and the
message. -/
theorem process_of_continues {opcode : UInt8} {sofar bs : Bytes} {controls : List Message}
    {plain : Bytes} {i : Inflater} (h : Continues bs controls fs) (hx : x.IsSound)
    (hmessage : x.walk.message = some ⟨opcode, sofar⟩)
    (hlength : (sofar ++ bs).length ≤ maxMessage)
    (hi : x.inflater.inflate (sofar ++ bs) = (.ok plain, i)) (rest : Bytes) :
    ∃ gs, List.Forall₂ WireFrame.Controls gs controls ∧
      x.process (WireFrame.join fs ++ rest) =
        (process ⟨i, none⟩ rest).behind (WireFrame.join gs ++ maskedFrame opcode plain) := by
  induction h generalizing x sofar with
  | @last f hf =>
    have hjoins : f.Joins x.walk.message ⟨opcode, sofar ++ f.payload⟩ := by
      rw [hmessage]
      exact .next _ hf.opcode_eq hf.rsv1_eq
    have hle : f.payload.length ≤ maxMessage := by
      rw [List.length_append] at hlength
      omega
    refine ⟨[], .nil, ?_⟩
    rw [WireFrame.join_cons, WireFrame.join_nil, List.append_nil]
    exact process_of_last hx hjoins hlength hle hf.final_eq hi rest
  | @next f bs controls fs hf h ih =>
    have hjoins : f.Joins x.walk.message ⟨opcode, sofar ++ f.payload⟩ := by
      rw [hmessage]
      exact .next _ hf.opcode_eq hf.rsv1_eq
    rw [← List.append_assoc] at hlength hi
    have hsofar : (sofar ++ f.payload).length ≤ maxMessage := by
      rw [List.length_append] at hlength
      omega
    have hle : f.payload.length ≤ maxMessage := by
      rw [List.length_append] at hsofar
      omega
    obtain ⟨y, hy, hinflater, hymessage, hprocess⟩ :=
      process_of_joins hx hjoins hsofar hle hf.final_eq (WireFrame.join fs ++ rest)
    rw [← hinflater] at hi
    obtain ⟨gs, hgs, hrest⟩ := ih hy hymessage hlength hi
    exact ⟨gs, hgs, by rw [WireFrame.join_cons, List.append_assoc, hprocess, hrest]⟩
  | @control f c bs controls fs hf h ih =>
    obtain ⟨gs, hgs, hrest⟩ := ih hx hmessage hlength hi
    refine ⟨f :: gs, .cons hf hgs, ?_⟩
    rw [WireFrame.join_cons, List.append_assoc, process_of_controls hf, hrest,
      Expansion.behind_behind, WireFrame.join_cons, List.append_assoc]

/-- A compressed message gives the control frames between its frames, and itself as one frame. -/
theorem process_of_carried {opcode : UInt8} {payload plain : Bytes} {controls : List Message}
    {i : Inflater} (hcontrol : Opcode.isControl opcode = false)
    (hopcode : opcode ≠ Opcode.continuation) (h : Carried true opcode payload controls fs)
    (hmessage : x.message = none) (hlength : payload.length ≤ maxMessage)
    (hi : x.inflater.inflate payload = (.ok plain, i)) (rest : Bytes) :
    ∃ gs, List.Forall₂ WireFrame.Controls gs controls ∧
      x.process (WireFrame.join fs ++ rest) =
        (process ⟨i, none⟩ rest).behind (WireFrame.join gs ++ maskedFrame opcode plain) := by
  have hwalk : x.walk.message = none := by rw [walk, hmessage]; rfl
  -- The first frame tells that the message is compressed, so it joins one.
  have hfirst : ∀ {f : WireFrame} {final : Bool}, f.IsSent final true opcode →
      f.Joins x.walk.message ⟨opcode, f.payload⟩ := by
    intro f final hf
    rw [hwalk, ← hf.opcode_eq]
    refine .first ?_ ?_ hf.rsv1_eq
    · rw [hf.opcode_eq]
      exact hcontrol
    · rw [hf.opcode_eq]
      exact hopcode
  have hx : x.IsSound := isSound_of_none hmessage
  cases h with
  | @whole f hf =>
    refine ⟨[], .nil, ?_⟩
    rw [WireFrame.join_cons, WireFrame.join_nil, List.append_nil]
    exact process_of_last hx (hfirst hf) hlength hlength hf.final_eq hi rest
  | @split f bs _ fs hf h =>
    have hle : f.payload.length ≤ maxMessage := by
      rw [List.length_append] at hlength
      omega
    obtain ⟨y, hy, hinflater, hymessage, hprocess⟩ :=
      process_of_joins hx (hfirst hf) hle hle hf.final_eq (WireFrame.join fs ++ rest)
    rw [← hinflater] at hi
    obtain ⟨gs, hgs, hrest⟩ := process_of_continues h hy hymessage hlength hi rest
    exact ⟨gs, hgs, by rw [WireFrame.join_cons, List.append_assoc, hprocess, hrest]⟩

/-- Frames of messages that are not compressed stay as they are. -/
theorem process_of_plain (hmessage : x.message = none)
    (hfs : ∀ f ∈ fs, f.rsv1 = false ∧ f.payload.length ≤ maxMessage) (rest : Bytes) :
    x.process (WireFrame.join fs ++ rest) = (x.process rest).behind (WireFrame.join fs) := by
  induction fs with
  | nil => rfl
  | cons f fs ih =>
    obtain ⟨hrsv1, hlength⟩ := hfs f List.mem_cons_self
    have hplain : f.IsPlain x.walk.message := by
      refine .inr ⟨?_, .inl hrsv1⟩
      rw [walk, hmessage]
      rfl
    rw [WireFrame.join_cons, List.append_assoc, process_of_isPlain hplain hlength,
      ih fun f hf => hfs f (List.mem_cons_of_mem _ hf), Expansion.behind_behind]

end Expander

theorem WireFrame.Controls.bounds {f : WireFrame} {m : Message} (h : f.Controls m) :
    f.rsv1 = false ∧ f.payload.length ≤ maxMessage := by
  obtain ⟨opcode, -, hsent, hlength⟩ := h
  exact ⟨hsent.rsv1_eq, Nat.le_trans hlength (by decide)⟩

theorem Continues.bounds {bs : Bytes} {controls : List Message} {fs : List WireFrame}
    (h : Continues bs controls fs) (hlength : bs.length ≤ maxMessage) :
    ∀ f ∈ fs, f.rsv1 = false ∧ f.payload.length ≤ maxMessage := by
  induction h with
  | last hf =>
    intro g hg
    rw [List.mem_singleton.1 hg]
    exact ⟨hf.rsv1_eq, hlength⟩
  | next hf _ ih =>
    rw [List.length_append] at hlength
    intro g hg
    rcases List.mem_cons.1 hg with rfl | hg
    · exact ⟨hf.rsv1_eq, by omega⟩
    · exact ih (by omega) g hg
  | control hf _ ih =>
    intro g hg
    rcases List.mem_cons.1 hg with rfl | hg
    · exact hf.bounds
    · exact ih hlength g hg

theorem Carried.bounds {opcode : UInt8} {bs : Bytes} {controls : List Message} {fs : List WireFrame}
    (h : Carried false opcode bs controls fs) (hlength : bs.length ≤ maxMessage) :
    ∀ f ∈ fs, f.rsv1 = false ∧ f.payload.length ≤ maxMessage := by
  intro g hg
  cases h with
  | whole hf =>
    rw [List.mem_singleton.1 hg]
    exact ⟨hf.rsv1_eq, hlength⟩
  | split hf h =>
    rw [List.length_append] at hlength
    rcases List.mem_cons.1 hg with rfl | hg
    · exact ⟨hf.rsv1_eq, by omega⟩
    · exact h.bounds (by omega) g hg

/-- A message of data can be sent whole, with a key of zeros. -/
theorem Message.IsData.exists_carried {m : Message} {opcode : UInt8} {bs : Bytes}
    (h : m.IsData opcode bs) (hlength : bs.length < maxMessage) :
    ∃ f : WireFrame, f.bytes = maskedFrame opcode bs ∧ Carried false opcode bs [] [f] := by
  obtain ⟨f, hf⟩ := WireFrame.exists_isWhole h.opcode_lt (Nat.lt_trans hlength (by decide))
  have hsent : f.IsSent true false opcode :=
    ⟨hf.final, hf.rsv1, hf.rsv2, hf.rsv3, hf.opcode_eq, by rw [hf.key]; rfl⟩
  have hcarried := Carried.whole hsent
  rw [hf.payload_eq] at hcarried
  exact ⟨f, hf.bytes_eq, hcarried⟩

/-- **What is handed up is a way to send the same messages without compression.** -/
theorem Sends.expanded {history : Bytes} {ms : List Message} {fs : List WireFrame} {x : Expander}
    (h : Sends true history ms fs) (hmessage : x.message = none)
    (hx : x.inflater.Holds history) :
    ∃ (gs : List WireFrame) (y : Expander), Sends false [] ms gs ∧
      x.process (WireFrame.join fs) = ⟨y, WireFrame.join gs, [], none⟩ := by
  induction h generalizing x with
  | done => exact ⟨[], x, .done, Expander.process_nil x⟩
  | @control history f m ms fs hf _ ih =>
    obtain ⟨gs, y, hgs, hprocess⟩ := ih hmessage hx
    refine ⟨f :: gs, y, .control hf hgs, ?_⟩
    rw [WireFrame.join_cons, Expander.process_of_controls hf, hprocess]
    rfl
  | @plain history bs opcode m controls ms fs gs hm hlength hfs _ ih =>
    obtain ⟨gs', y, hgs, hprocess⟩ := ih hmessage hx
    refine ⟨fs ++ gs', y, .plain hm hlength hfs hgs, ?_⟩
    rw [WireFrame.join_append,
      Expander.process_of_plain hmessage (hfs.bounds (Nat.le_of_lt hlength)), hprocess,
      WireFrame.join_append]
    rfl
  | @compressed history history' remembered bs payload opcode m controls ms fs gs _ hm hlength
      hpayload hremembered hcarries hfs _ ih =>
    -- The inflater holds at least what the compressor remembers.
    obtain ⟨i, hi, hholds⟩ := Inflater.inflate_of_carries (hx.suffix hremembered) hcarries hlength
    obtain ⟨gs', y, hgs, hprocess⟩ := ih (x := ⟨i, none⟩) rfl hholds
    obtain ⟨cs, hcs, hfirst⟩ := Expander.process_of_carried hm.not_isControl hm.ne_continuation hfs
      hmessage (Nat.le_of_lt hpayload) hi (WireFrame.join gs)
    obtain ⟨f, hf, hcarried⟩ := hm.exists_carried hlength
    -- The control frames come first, as their messages do, and the whole message stands behind them.
    have hsends : Sends false [] (m :: ms) (f :: gs') := .plain hm hlength hcarried hgs
    refine ⟨cs ++ f :: gs', y, hsends.controls hcs, ?_⟩
    rw [WireFrame.join_append, hfirst, hprocess, WireFrame.join_append, WireFrame.join_cons, hf]
    simp only [Expansion.behind, List.append_assoc]

/-! ### Streams without compression -/

namespace InflateStream

variable {s : InflateStream Schedule}

theorem read_of_none (hs : s.expander = none) (n : Nat) :
    s.read n = ((s.inner.read n).1, { s with inner := (s.inner.read n).2 }) := by
  rw [read, hs]
  rfl

/-- A read passes on what the stream below answers. -/
theorem inner_of_read (hs : s.expander = none) (n : Nat) :
    (s.read n).2.expander = none ∧
      s.inner.bytes = bytesOf (s.read n).1 ++ (s.read n).2.inner.bytes ∧
      s.inner.interruptions = interruptions [(s.read n).1] ++ (s.read n).2.inner.interruptions := by
  rw [read_of_none hs]
  refine ⟨hs, ?_⟩
  rcases hr : s.inner.read n with ⟨a, inner⟩
  cases a with
  | ready bs => exact Schedule.bytes_of_read hr
  | failed e => exact Schedule.interruptions_of_read hr nofun
  | pending => exact Schedule.interruptions_of_read hr nofun

/-- Whatever is read, and what is still to be read, is what the stream below had. -/
theorem inner_of_reads (hs : s.expander = none) (sizes : List Nat) :
    s.inner.bytes = yielded (s.reads sizes).1 ++ (s.reads sizes).2.inner.bytes ∧
      s.inner.interruptions =
        interruptions (s.reads sizes).1 ++ (s.reads sizes).2.inner.interruptions := by
  induction sizes generalizing s with
  | nil => exact ⟨rfl, rfl⟩
  | cons n ns ih =>
    obtain ⟨hnone, hbytes, hinterruptions⟩ := inner_of_read hs n
    obtain ⟨hbytes', hinterruptions'⟩ := ih hnone
    rw [reads_cons, yielded_cons, interruptions_cons, hbytes, hinterruptions, List.append_assoc,
      List.append_assoc, ← hbytes', ← hinterruptions']
    exact ⟨rfl, rfl⟩

/-- When the end is reported, nothing is left. -/
theorem arrivals_of_reportsEnd (hs : s.expander = none) {sizes : List Nat}
    (hend : ReportsEnd sizes (s.reads sizes).1) :
    yielded (s.reads sizes).1 = s.inner.bytes ∧
      interruptions (s.reads sizes).1 = s.inner.interruptions := by
  induction sizes generalizing s with
  | nil =>
    obtain ⟨n, -, hmem⟩ := hend
    cases hmem
  | cons n ns ih =>
    obtain ⟨hbytes, hinterruptions⟩ := inner_of_reads hs (n :: ns)
    obtain ⟨hnone, hread, hread'⟩ := inner_of_read hs n
    rw [reads_cons] at hend
    obtain ⟨m, hm, hmem⟩ := hend
    rcases List.mem_cons.1 hmem with heq | hmem
    · -- The stream below has ended.
      obtain ⟨rfl, ha⟩ := Prod.mk.inj heq
      have hinner : s.inner.read m = (.ready [], (s.inner.read m).2) := by
        rw [read_of_none hs] at ha
        exact Prod.ext ha.symm rfl
      obtain ⟨harrivals, -⟩ := Schedule.arrivals_of_read hm hinner
      have hnil : s.inner.bytes = [] := by rw [Schedule.bytes, harrivals]; rfl
      have hnil' : s.inner.interruptions = [] := by rw [Schedule.interruptions, harrivals]; rfl
      rw [hnil] at hbytes ⊢
      rw [hnil'] at hinterruptions ⊢
      exact ⟨(List.append_eq_nil_iff.1 hbytes.symm).1,
        (List.append_eq_nil_iff.1 hinterruptions.symm).1⟩
    · obtain ⟨hyielded, hinterrupted⟩ := ih hnone ⟨m, hm, hmem⟩
      rw [reads_cons, yielded_cons, interruptions_cons, hyielded, hinterrupted, ← hread, ← hread']
      exact ⟨rfl, rfl⟩

/-- A stream without compression has so many bytes and interruptions left. -/
def PlainLeft (s : InflateStream Schedule) (k : Nat) : Prop :=
  s.expander = none ∧ s.inner.interruptions.length + s.inner.bytes.length = k

theorem plainLeft_read {k : Nat} (n : Nat) (h : PlainLeft s k) :
    ∃ k', PlainLeft (s.read n).2 k' ∧
      (bytesOf (s.read n).1).length + (interruptions [(s.read n).1]).length + k' ≤ k := by
  obtain ⟨hs, rfl⟩ := h
  obtain ⟨hnone, hbytes, hinterruptions⟩ := inner_of_read hs n
  refine ⟨_, ⟨hnone, rfl⟩, ?_⟩
  rw [hbytes, hinterruptions, List.length_append, List.length_append]
  omega

/-- Enough reads report the end. -/
theorem reportsEnd_of_none (hs : s.expander = none) {sizes : List Nat}
    (hlt : s.inner.interruptions.length + s.inner.bytes.length < (sizes.filter (0 < ·)).length) :
    ReportsEnd sizes (s.reads sizes).1 := by
  have hleft : PlainLeft s (s.inner.interruptions.length + s.inner.bytes.length) := ⟨hs, rfl⟩
  exact reportsEnd_of_left plainLeft_read hleft hlt

/-! ### What is received -/

/-- The chunks that answers bring. -/
def chunks (answers : List (Poll Bytes)) : List Bytes :=
  answers.map bytesOf

/-- What a session is told of the messages in the chunks. -/
def items (answers : List (Poll Bytes)) : List Item :=
  (Receiver.start.run (chunks answers)).1.map .message

/-- These messages are received from a stream, whatever the sizes of the reads: they are complete when
the end is reported, nothing else fails, and enough reads report the end. -/
structure Receives (s : InflateStream Schedule) (ms : List Message) : Prop where
  messages {sizes : List Nat} : ReportsEnd sizes (s.reads sizes).1 →
    Receiver.start.run (chunks (s.reads sizes).1) = (ms, some .start)
  interruptions {sizes : List Nat} : ReportsEnd sizes (s.reads sizes).1 →
    InflateStream.interruptions (s.reads sizes).1 = s.inner.interruptions
  reportsEnd : ∃ n, ∀ sizes : List Nat, n < (sizes.filter (0 < ·)).length →
    ReportsEnd sizes (s.reads sizes).1

theorem run_chunks (answers : List (Poll Bytes)) :
    Receiver.start.run (chunks answers) = Receiver.receive ⟨yielded answers, none⟩ := by
  have hflatten : (chunks answers).flatten = yielded answers := List.flatMap_def.symm
  rw [Receiver.run_eq_receive, hflatten]
  rfl

theorem receives_plain {ms : List Message} {gs : List WireFrame} (hg : Sends false [] ms gs)
    {schedule : Schedule} (hbytes : schedule.bytes = WireFrame.join gs) :
    Receives (make schedule false) ms where
  messages hend := by
    have hyielded := (arrivals_of_reportsEnd rfl hend).1
    rw [run_chunks, hyielded]
    show Receiver.receive ⟨schedule.bytes, none⟩ = _
    rw [hbytes, hg.receive]
  interruptions hend := (arrivals_of_reportsEnd rfl hend).2
  reportsEnd := ⟨_, fun _ hlt => reportsEnd_of_none rfl hlt⟩

theorem receives_compressed {ms : List Message} {fs : List WireFrame} (hf : Sends true [] ms fs)
    {schedule : Schedule} (hbytes : schedule.bytes = WireFrame.join fs) :
    Receives (make schedule true) ms := by
  obtain ⟨gs, y, hgs, hprocess⟩ := hf.expanded (x := .start) rfl Inflater.holds_start
  -- So the bytes meet no error, and they expand to the frames `gs`.
  rw [← hbytes] at hprocess
  have hok : (Expander.start.process schedule.bytes).error = none := by rw [hprocess]
  have hexpanded : schedule.expanded = WireFrame.join gs := by
    rw [Schedule.expanded, hprocess, List.append_nil]
  have hstart := Reading.start schedule
  refine ⟨fun hend => ?_, fun hend => ?_,
    schedule.interruptions.length + schedule.expanded.length, fun sizes hlt => ?_⟩
  · have hyielded := (hstart.yielded_of_reportsEnd hok hend).1
    rw [List.nil_append, hexpanded] at hyielded
    rw [run_chunks, hyielded, hgs.receive]
  · exact (hstart.yielded_of_reportsEnd hok hend).2
  · exact hstart.reportsEnd_of_lt hok hlt

/-- **Compression is transparent.** Let a client send messages, compressing some of them as it likes,
and let another one send the same messages without compression. From both the same messages are
received, in order and up to the end, whatever the chunks in which their bytes arrive and the sizes of
the reads. So a session finds the same first message that counts. -/
theorem receives_of_sends {ms : List Message} {fs gs : List WireFrame} (hf : Sends true [] ms fs)
    (hg : Sends false [] ms gs) {s t : Schedule} (hs : s.bytes = WireFrame.join fs)
    (ht : t.bytes = WireFrame.join gs) (inflates : Bool) :
    Receives (make s true) ms ∧ Receives (make t inflates) ms ∧
      ∀ (id : Identity) (c : Channel) (sizes sizes' : List Nat),
        ReportsEnd sizes ((make s true).reads sizes).1 →
        ReportsEnd sizes' ((make t inflates).reads sizes').1 →
        Session.pullFirst id c (items ((make s true).reads sizes).1) =
          Session.pullFirst id c (items ((make t inflates).reads sizes').1) := by
  have hcompressed := receives_compressed hf hs
  have hplain : Receives (make t inflates) ms := by
    cases inflates with
    | false => exact receives_plain hg ht
    | true =>
      -- Compression was agreed on, but this client does not use it.
      exact receives_compressed hg.of_plain ht
  refine ⟨hcompressed, hplain, fun id c sizes sizes' hend hend' => ?_⟩
  rw [items, items, hcompressed.messages hend, hplain.messages hend']

/-! A ping inside a compressed message, which is stored, and another message that refers back to it. -/

/-- A short frame with a key. -/
def shortFrame (final rsv1 : Bool) (opcode : UInt8) (payload : Bytes)
    (h : opcode.toNat < 16 ∧ payload.length < 126) : WireFrame where
  final
  rsv1
  rsv2 := false
  rsv3 := false
  opcode
  opcode_lt := h.1
  form := .short
  payloadLength := payload.length
  payloadLength_lt := h.2
  key := some ⟨[0x01, 0x02, 0x03, 0x04], rfl⟩
  payload
  length_payload := rfl

theorem isSent_shortFrame (final rsv1 : Bool) (opcode : UInt8) (payload : Bytes)
    (h : opcode.toNat < 16 ∧ payload.length < 126) :
    (shortFrame final rsv1 opcode payload h).IsSent final rsv1 opcode :=
  ⟨rfl, rfl, rfl, rfl, rfl, rfl⟩

def pingFrame : WireFrame := shortFrame true false Opcode.ping [] (by decide)

/-- The frames of the two messages, compressed. -/
def compressedFrames : List WireFrame :=
  [shortFrame false true Opcode.binary [0x00, 0x02, 0x00] (by decide), pingFrame,
    shortFrame true false Opcode.continuation [0xFD, 0xFF, 0x48, 0x69, 0x00] (by decide)] ++
  [shortFrame true true Opcode.binary [0x02, 0x42, 0x00, 0x00] (by decide)]

/-- The frames of the two messages as they are. -/
def plainFrames : List WireFrame :=
  [pingFrame, shortFrame true false Opcode.binary [0x48, 0x69] (by decide),
    shortFrame true false Opcode.binary [0x48, 0x69, 0x48] (by decide)]

theorem controls_pingFrame : pingFrame.Controls (.ping []) :=
  ⟨_, .ping [], isSent_shortFrame .., by decide⟩

theorem carries_stored :
    Deflate.Carries [] [0x00, 0x02, 0x00, 0xFD, 0xFF, 0x48, 0x69, 0x00] [0x48, 0x69]
      [0x48, 0x69] := by
  let padding := List.replicate 5 false
  have hblock : Deflate.Block false [] ([false] ++ Deflate.numberBits 2 0 ++ padding)
      (Deflate.bitsOf [0x00, 0x02, 0x00, 0xFD, 0xFF, 0x48, 0x69, 0x00]) [0x48, 0x69] :=
    @Deflate.Block.stored false [] _ padding [0x48, 0x69] (by decide) (by decide) (by decide)
  exact ⟨padding, by decide, .block hblock .done⟩

theorem carries_copy :
    Deflate.Carries [0x48, 0x69] [0x02, 0x42, 0x00, 0x00] [0x48, 0x69, 0x48]
      [0x48, 0x69, 0x48, 0x69, 0x48] := by
  let padding := List.replicate 7 false
  let rest := [false] ++ Deflate.numberBits 2 0 ++ padding
  have hlength : Deflate.HasCode Deflate.fixedLiterals (257 + 0) (List.replicate 6 false ++ [true]) :=
    ⟨7, by decide +kernel, by decide, by decide +kernel⟩
  have hdistance : Deflate.HasCode Deflate.fixedDistances 1 (List.replicate 4 false ++ [true]) :=
    ⟨5, by decide +kernel, by decide, by decide +kernel⟩
  have hend : Deflate.HasCode Deflate.fixedLiterals 256 (List.replicate 7 false) :=
    ⟨7, by decide +kernel, by decide, by decide +kernel⟩
  have hback : 2 + 0 ≤ ([0x48, 0x69] : Bytes).length := by decide
  have hdone : Deflate.Elements Deflate.fixedLiterals Deflate.fixedDistances rest
      ([0x48, 0x69] ++ Deflate.copied [0x48, 0x69] 2 3) (List.replicate 7 false ++ rest) [] :=
    .endOfBlock hend
  have hcopy := Deflate.Elements.copy hlength (by rfl) (by decide : 0 < 2 ^ 0) hdistance (by rfl)
    (by decide : 0 < 2 ^ 0) hback hdone
  exact ⟨padding, by decide, .block (.fixed hcopy) .done⟩

theorem receives_two_messages :
    let ms : List Message := [.ping [], .binary [0x48, 0x69], .binary [0x48, 0x69, 0x48]]
    let byteByByte (fs : List WireFrame) : Schedule :=
      ⟨.pending :: (WireFrame.join fs).map (.chunk · [])⟩
    Sends true [] ms compressedFrames ∧ Sends false [] ms plainFrames ∧
      (byteByByte compressedFrames).bytes = WireFrame.join compressedFrames ∧
      (byteByByte plainFrames).bytes = WireFrame.join plainFrames ∧
      Receives (make (byteByByte compressedFrames) true) ms ∧
      Receives (make (byteByByte plainFrames) false) ms := by
  intro ms byteByByte
  have hsplit : Carried true Opcode.binary [0x00, 0x02, 0x00, 0xFD, 0xFF, 0x48, 0x69, 0x00]
      [.ping []] (compressedFrames.take 3) :=
    .split (isSent_shortFrame false true Opcode.binary [0x00, 0x02, 0x00] _)
      (.control controls_pingFrame (.last (isSent_shortFrame ..)))
  have hcompressed : Sends true [] ms compressedFrames :=
    .compressed rfl (.binary _) (by decide) (by decide) (List.suffix_refl _) carries_stored hsplit
      (.compressed rfl (.binary _) (by decide) (by decide) (List.suffix_refl _) carries_copy
        (.whole (isSent_shortFrame ..)) .done)
  have hplain : Sends false [] ms plainFrames :=
    .control controls_pingFrame
      (.plain (.binary _) (by decide) (.whole (isSent_shortFrame ..))
        (.plain (.binary _) (by decide) (.whole (isSent_shortFrame ..)) .done))
  have hbytes : (byteByByte compressedFrames).bytes = WireFrame.join compressedFrames := by decide
  have hbytes' : (byteByByte plainFrames).bytes = WireFrame.join plainFrames := by decide
  obtain ⟨hreceives, hreceives', -⟩ := receives_of_sends hcompressed hplain hbytes hbytes' false
  exact ⟨hcompressed, hplain, hbytes, hbytes', hreceives, hreceives'⟩

end InflateStream

end Switchyard
