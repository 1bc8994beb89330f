import Mathlib.Data.List.Forall2
import Switchyard.Proofs.WebSocket.InflateStream
import Switchyard.WebSocket.Receiver

/-!
# Frames that may not come from a client

A channel breaks at a frame without a key or with a reserved bit. When compressed messages are
expanded, the frames outside them are handed up as they came, and a frame that is not legal still breaks
the channel. The frames of a compressed message are not handed up, and of their headers only the
opcode, the bit RSV1 and whether they are the last one are looked at: what was handed up is the same
whatever their keys and other reserved bits were (`illegal_only_outside`).
-/

namespace Switchyard

namespace WireFrame

/-- The frames at which a channel breaks. -/
def illegal (frames : List WireFrame) : List WireFrame :=
  frames.filter fun f => !Receiver.isLegal f.header

/-- The frames that belong to no compressed message; `begun` tells whether one has begun before. -/
def outside (begun : Bool) : List WireFrame → List WireFrame
  | [] => []
  | f :: fs =>
    if Opcode.isControl f.opcode then f :: outside begun fs
    else if begun || (f.rsv1 && f.opcode != Opcode.continuation) then outside (!f.final) fs
    else f :: outside false fs

/-- Two frames do the same for a compressed message. Their keys and the bits RSV2 and RSV3 may
differ. -/
structure SameContent (f g : WireFrame) : Prop where
  final : f.final = g.final
  rsv1 : f.rsv1 = g.rsv1
  opcode : f.opcode = g.opcode
  payload : f.payload = g.payload

/-! ### Frames that are handed up -/

theorem illegal_cons (f : WireFrame) (fs : List WireFrame) :
    illegal (f :: fs) = if Receiver.isLegal f.header then illegal fs else f :: illegal fs := by
  rw [illegal, List.filter_cons]
  cases Receiver.isLegal f.header <;> rfl

theorem IsWhole.isLegal {f : WireFrame} {opcode : UInt8} {payload : Bytes}
    (h : f.IsWhole opcode payload) : Receiver.isLegal f.header = true := by
  simp [Receiver.isLegal, WireHeader.header, h.key, h.rsv1, h.rsv2, h.rsv3]

theorem outside_of_isPlain {f : WireFrame} {message : Option Gathering} (h : f.IsPlain message)
    (fs : List WireFrame) :
    outside message.isSome (f :: fs) = f :: outside message.isSome fs := by
  rw [outside]
  rcases h with hcontrol | ⟨rfl, hplain⟩
  · rw [if_pos hcontrol]
  · have hfalse : (f.rsv1 && f.opcode != Opcode.continuation) = false := by
      rcases hplain with hrsv1 | hopcode
      · rw [hrsv1, Bool.false_and]
      · rw [hopcode, bne_self_eq_false, Bool.and_false]
    simp [hfalse]

theorem outside_of_joins {f : WireFrame} {message : Option Gathering} {m : Gathering}
    (h : f.Joins message m) (fs : List WireFrame) :
    outside message.isSome (f :: fs) = outside (!f.final) fs := by
  rw [outside]
  cases h with
  | first hcontrol hopcode hrsv1 => simp [hcontrol, hopcode, hrsv1]
  | next m hopcode hrsv1 =>
    have hcontrol : Opcode.isControl Opcode.continuation = false := rfl
    simp [hopcode, hcontrol]

theorem IsPlain.of_sameContent {f g : WireFrame} {message : Option Gathering} (h : f.IsPlain message)
    (hfg : f.SameContent g) : g.IsPlain message := by
  rwa [IsPlain, ← hfg.opcode, ← hfg.rsv1]

theorem Joins.of_sameContent {f g : WireFrame} {message : Option Gathering} {m : Gathering}
    (h : f.Joins message m) (hfg : f.SameContent g) : g.Joins message m := by
  cases h with
  | first hcontrol hopcode hrsv1 =>
    rw [hfg.opcode] at hcontrol hopcode ⊢
    rw [hfg.payload]
    exact .first hcontrol hopcode (hfg.rsv1.symm.trans hrsv1)
  | next m hopcode hrsv1 =>
    rw [hfg.payload]
    exact .next m (hfg.opcode.symm.trans hopcode) (hfg.rsv1.symm.trans hrsv1)

end WireFrame

open WireFrame

/-- Frames are rewritten to frames, and what is illegal among these came from outside the compressed
messages. -/
theorem Rewrites.exists_frames {w w' : Walk} {fs : List WireFrame} {out : Bytes}
    (h : Rewrites w fs out w') :
    ∃ gs, out = join gs ∧ illegal gs = illegal (outside w.message.isSome fs) := by
  induction h with
  | done w => exact ⟨[], rfl, rfl⟩
  | @copied w w' f fs out hf _ ih =>
    obtain ⟨gs, rfl, hgs⟩ := ih
    refine ⟨f :: gs, rfl, ?_⟩
    rw [outside_of_isPlain hf, illegal_cons, illegal_cons, hgs]
  | @gathered w w' f fs out m hf hfinal _ ih =>
    obtain ⟨gs, rfl, hgs⟩ := ih
    refine ⟨gs, rfl, ?_⟩
    rw [outside_of_joins hf, hfinal, hgs]
    rfl
  | @inflated w w' f g fs out plain m i hf hfinal _ hg _ ih =>
    obtain ⟨gs, rfl, hgs⟩ := ih
    refine ⟨g :: gs, rfl, ?_⟩
    rw [outside_of_joins hf, hfinal, illegal_cons, if_pos hg.isLegal, hgs]
    rfl

/-! ### Frames of compressed messages -/

/-- Two byte strings are expanded alike: only what is left behind an error may differ. -/
structure Expansion.Alike (e e' : Expansion) : Prop where
  expander : e.expander = e'.expander
  output : e.output = e'.output
  error : e.error = e'.error
  rest : e.error = none → e.rest = e'.rest

theorem Expansion.Alike.behind {e e' : Expansion} (h : e.Alike e') (out : Bytes) :
    (e.behind out).Alike (e'.behind out) where
  expander := h.expander
  output := congrArg (out ++ ·) h.output
  error := h.error
  rest := h.rest

namespace Expander

variable {x x' : Expander} {f g : WireFrame} {fs gs : List WireFrame}

theorem compressed?_eq_of_sameContent (h : f.SameContent g) :
    x.compressed? f.header = x.compressed? g.header := by
  rw [compressed?, compressed?, WireHeader.header_opcode, WireHeader.header_opcode,
    WireHeader.header_rsv1, WireHeader.header_rsv1, h.opcode, h.rsv1]

theorem gather_eq_of_sameContent (h : f.SameContent g) (payload : Bytes) :
    x.gather f.header payload = x.gather g.header payload := by
  have hextend : x.extend f.header payload = x.extend g.header payload := by
    rw [extend, extend, WireHeader.header_opcode, WireHeader.header_opcode, h.opcode]
  rw [gather, gather, hextend, WireHeader.header_final, WireHeader.header_final,
    WireHeader.header_opcode, WireHeader.header_opcode, h.final, h.opcode]

theorem frame_of_compressed (h : x.compressed? f.header = .ok true) :
    x.frame f.header f.bytes = x.gather f.header f.payload := by
  rw [frame, h, unmask_drop_bytes]

/-- After a frame of a compressed message, its end decides whether there is a message under way. -/
theorem isSome_of_gather {h : FrameHeader} {payload out : Bytes}
    (hg : x.gather h payload = (.ok out, x')) : x'.message.isSome = !h.final := by
  unfold gather at hg
  dsimp only at hg
  split at hg
  · cases hg
  split at hg
  · next hfinal =>
    split at hg
    · cases hg
      rw [hfinal]
      rfl
    · cases hg
  · next hfinal =>
    cases hg
    rw [Bool.eq_false_iff.2 hfinal]
    rfl

theorem walk_message_isSome (x : Expander) : x.walk.message.isSome = x.message.isSome :=
  Option.isSome_map

/-- Frames that differ only inside compressed messages, and there not in content, are expanded
alike. -/
theorem process_alike (h : List.Forall₂ SameContent fs gs)
    (houtside : outside x.message.isSome fs = outside x.message.isSome gs) (rest : Bytes) :
    (x.process (join fs ++ rest)).Alike (x.process (join gs ++ rest)) := by
  -- Frame by frame; which of them are outside depends on the message that is under way.
  induction h generalizing x with
  | nil => exact ⟨rfl, rfl, rfl, fun _ => rfl⟩
  | @cons f g fs gs hfg _ ih =>
    have hlength : f.payloadLength = g.payloadLength := by
      rw [← f.length_payload, ← g.length_payload, hfg.payload]
    rw [join_cons, join_cons, List.append_assoc, List.append_assoc]
    by_cases hf : f.payloadLength ≤ maxMessage
    · have hcompressed := compressed?_eq_of_sameContent (x := x) hfg
      rw [process_frame x hf, process_frame x (hlength ▸ hf)]
      cases hc : x.compressed? f.header with
      | error e =>
        rw [frame, frame, ← hcompressed, hc]
        exact ⟨rfl, rfl, rfl, fun h => by cases h⟩
      | ok b =>
        rcases cases_of_compressed? hc with hplain | ⟨m, hm⟩
        · -- A frame that is handed up is the same on both sides.
          rw [← x.walk_message_isSome, outside_of_isPlain hplain,
            outside_of_isPlain (hplain.of_sameContent hfg)] at houtside
          obtain ⟨rfl, hrest⟩ := List.cons.inj houtside
          rw [frame_of_isPlain hplain]
          exact (ih (x.walk_message_isSome ▸ hrest)).behind f.bytes
        · rw [← x.walk_message_isSome, outside_of_joins hm,
            outside_of_joins (hm.of_sameContent hfg), ← hfg.final] at houtside
          rw [frame_of_compressed (compressed?_of_joins hm),
            frame_of_compressed (compressed?_of_joins (hm.of_sameContent hfg)), ← hfg.payload,
            ← gather_eq_of_sameContent hfg]
          rcases hg : x.gather f.header f.payload with ⟨e | out, x'⟩
          · exact ⟨rfl, rfl, rfl, fun h => by cases h⟩
          · have hbegun : x'.message.isSome = !f.final := isSome_of_gather hg
            exact (ih (hbegun ▸ houtside)).behind out
    · rw [process_of_tooLarge (f.read_bytes_of_lt (Nat.not_le.1 hf) _),
        process_of_tooLarge (g.read_bytes_of_lt (Nat.not_le.1 (hlength ▸ hf)) _)]
      exact ⟨rfl, rfl, rfl, fun h => by cases h⟩

end Expander

/-- Whatever a channel has received, it breaks at a frame that is not legal. -/
theorem Receiver.next_of_illegal {f : WireFrame} (h : isLegal f.header = false) (rest : Bytes)
    (message : Option PartialMessage) : (Receiver.mk (f.bytes ++ rest) message).next = .broken := by
  by_cases hf : f.payloadLength ≤ maxMessage
  · have hread := f.read_bytes hf rest
    have hlength : ¬ (f.bytes ++ rest).length < f.header.total := by
      rw [List.length_append, f.length_bytes]
      omega
    simp only [next, hread, h, hlength, if_false, Bool.false_eq_true, ite_self]
  · have hread := f.read_bytes_of_lt (Nat.not_le.1 hf) rest
    simp [next, hread]

namespace InflateStream

/-- **What is handed up is illegal where the client was, outside its compressed messages.** If all
bytes of a client are expanded without an error, they are frames with a part of one behind them; what
is handed up are frames too, and those of them at which a channel breaks are the illegal ones outside
the compressed messages, in order. Within those it makes no difference whether frames were legal. -/
theorem illegal_only_outside (schedule : Schedule)
    (hok : (Expander.start.process schedule.bytes).error = none) :
    (∃ frames trailing given, schedule.bytes = join frames ++ trailing ∧ Incomplete trailing ∧
      schedule.expanded = join given ++ trailing ∧
      illegal given = illegal (outside false frames) ∧
      ∀ sizes : List Nat,
        let answers := ((InflateStream.make schedule true).reads sizes).1
        yielded answers <+: join given ++ trailing ∧
          (ReportsEnd sizes answers → yielded answers = join given ++ trailing)) ∧
    (∀ (fs gs : List WireFrame) (rest : Bytes), List.Forall₂ SameContent fs gs →
      outside false fs = outside false gs →
        (Expander.start.process (join fs ++ rest)).Alike
          (Expander.start.process (join gs ++ rest))) ∧
    ∀ (f : WireFrame) (rest : Bytes) (message : Option PartialMessage),
      Receiver.isLegal f.header = false →
        (Receiver.mk (f.bytes ++ rest) message).next = .broken := by
  refine ⟨?_, fun fs gs rest h houtside => ?_, fun f rest message h => ?_⟩
  · obtain ⟨-, hrest, frames, hbytes, hrewrites⟩ :=
      Expander.rewrites_of_process Expander.isSound_start schedule.bytes hok
    obtain ⟨given, hgiven, hillegal⟩ := hrewrites.exists_frames
    have hexpanded : schedule.expanded =
        join given ++ (Expander.start.process schedule.bytes).rest := by
      rw [Schedule.expanded, hgiven]
    refine ⟨frames, _, given, hbytes, hrest, hexpanded, hillegal, fun sizes => ?_⟩
    have hstart := Reading.start schedule
    have hreads := hstart.reads hok sizes
    rw [← hexpanded]
    exact ⟨(List.prefix_append _ _).trans hreads.append_ready_prefix,
      fun hend => (hstart.yielded_of_reportsEnd hok hend).1⟩
  · exact Expander.process_alike (x := .start) h houtside rest
  · exact Receiver.next_of_illegal h rest message

/-- A compressed greeting without a key. -/
def bareHello : WireFrame where
  final := true
  rsv1 := true
  rsv2 := false
  rsv3 := false
  opcode := Opcode.text
  opcode_lt := by decide
  form := .short
  payloadLength := 7
  payloadLength_lt := by decide
  key := none
  payload := [0xF2, 0x48, 0xCD, 0xC9, 0xC9, 0x07, 0x00]
  length_payload := rfl

/-- The same greeting with a key and with two more reserved bits. -/
def flaggedHello : WireFrame :=
  { bareHello with rsv2 := true, rsv3 := true, key := some ⟨[0x51, 0x52, 0x53, 0x54], rfl⟩ }

/-- The greeting without a key, and behind it a ping with a reserved bit. -/
def helloThenPing : Schedule where
  arrivals := [.chunk 0xC1 [0x07, 0xF2, 0x48, 0xCD, 0xC9, 0xC9, 0x07, 0x00],
    .chunk 0xA9 [0x80, 0x00, 0x00, 0x00, 0x00]]

theorem illegal_only_outside_of_hello :
    (Expander.start.process helloThenPing.bytes).error = none ∧
      (∃ frames trailing given, helloThenPing.bytes = join frames ++ trailing ∧
        illegal given = illegal (outside false frames) ∧
        yielded ((make helloThenPing true).reads [64, 64, 64]).1 = join given ++ trailing) ∧
      (Expander.start.process bareHello.bytes).Alike
        (Expander.start.process flaggedHello.bytes) ∧
      (Receiver.mk bareHello.bytes none).next = .broken := by
  have hok : (Expander.start.process helloThenPing.bytes).error = none := by decide +kernel
  obtain ⟨⟨frames, trailing, given, hbytes, -, -, hgiven, hreads⟩, halike, hbroken⟩ :=
    illegal_only_outside helloThenPing hok
  have hend : ReportsEnd [64, 64, 64] ((make helloThenPing true).reads [64, 64, 64]).1 :=
    ⟨64, by decide, by decide +kernel⟩
  refine ⟨hok, ⟨frames, trailing, given, hbytes, hgiven, (hreads _).2 hend⟩, ?_, ?_⟩
  · have hsame := halike [bareHello] [flaggedHello] [] (.cons ⟨rfl, rfl, rfl, rfl⟩ .nil) rfl
    simpa using hsame
  · have hbare := hbroken bareHello [] none rfl
    rwa [List.append_nil] at hbare

/-- A channel that breaks at the greeting without a key takes what it is expanded to: one legal
frame, and in it the text. -/
theorem bareHello_taken :
    Receiver.isLegal bareHello.header = false ∧
      bareHello.Joins none ⟨Opcode.text, bareHello.payload⟩ ∧
      (Expander.start.process bareHello.bytes).error = none ∧
      (Expander.start.process bareHello.bytes).rest = [] ∧
      (∃ g : WireFrame, (Expander.start.process bareHello.bytes).output = g.bytes ∧
        Receiver.isLegal g.header = true) ∧
      (Receiver.mk bareHello.bytes none).next = .broken ∧
      (Receiver.mk (Expander.start.process bareHello.bytes).output none).next =
        .message (.text "Hello".toList) .start := by
  have houtput : (Expander.start.process bareHello.bytes).output =
      maskedFrame Opcode.text [0x48, 0x65, 0x6C, 0x6C, 0x6F] := by decide +kernel
  obtain ⟨g, hg⟩ : ∃ g : WireFrame, g.IsWhole Opcode.text [0x48, 0x65, 0x6C, 0x6C, 0x6F] :=
    exists_isWhole bareHello.opcode_lt (by decide)
  exact ⟨rfl, .first rfl (by decide) rfl, by decide +kernel, by decide +kernel,
    ⟨g, houtput.trans hg.bytes_eq.symm, hg.isLegal⟩, by decide +kernel, by decide +kernel⟩

end InflateStream

end Switchyard
