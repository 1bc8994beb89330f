import Switchyard.Proofs.Deflate.Buffer
import Switchyard.Proofs.WebSocket.Rewriting
import Switchyard.WebSocket.Expander

/-!
# The expander rewrites frames

One frame takes the expander's `walk` one step further (`frame_of_isPlain`, `frame_of_joins`), and
these are all steps that meet no error (`step_of_frame`). Processing a byte string takes one such step
for each frame in it (`process_frame`), so it does not matter where the bytes are cut
(`process_append`), and what is put out without an error is the rewriting of the frames
(`rewrites_of_process`).
-/

namespace Switchyard

/-- What a message has brought so far. -/
def OpenMessage.gathering (m : OpenMessage) : Gathering :=
  ⟨m.opcode, m.parts.reverse.flatten⟩

namespace Expander

/-- How far the expander has walked. -/
def walk (x : Expander) : Walk :=
  ⟨x.inflater, x.message.map OpenMessage.gathering⟩

@[simp] theorem walk_start : start.walk = .start := rfl

/-- A message has the size that is kept of it, and a frame's opcode. -/
def IsSound (x : Expander) : Prop :=
  ∀ m, x.message = some m → m.size = m.gathering.payload.length ∧ m.opcode.toNat < 16

theorem isSound_of_none {x : Expander} (h : x.message = none) : x.IsSound := by
  intro m hm
  rw [h] at hm
  cases hm

theorem isSound_start : start.IsSound :=
  isSound_of_none rfl

variable {x x' : Expander} {f : WireFrame} {m : Gathering} {out : Bytes}

/-! ### One frame -/

theorem compressed?_of_isPlain (h : f.IsPlain x.walk.message) :
    x.compressed? f.header = .ok false := by
  rw [compressed?, WireHeader.header_opcode, WireHeader.header_rsv1]
  by_cases hc : Opcode.isControl f.opcode = true
  · rw [if_pos hc]
  · obtain ⟨hnone, hf⟩ := h.resolve_left hc
    rw [if_neg hc, Option.map_eq_none_iff.1 hnone]
    rcases hf with hrsv1 | hopcode
    · simp [hrsv1]
    · simp [hopcode]

theorem compressed?_of_joins (h : f.Joins x.walk.message m) :
    x.compressed? f.header = .ok true := by
  have hcontinuation : Opcode.isControl Opcode.continuation = false := rfl
  rw [compressed?, WireHeader.header_opcode, WireHeader.header_rsv1]
  generalize hw : x.walk.message = message at h
  cases h with
  | first hcontrol hopcode hrsv1 =>
    rw [Option.map_eq_none_iff.1 hw]
    simp [hcontrol, hrsv1, hopcode]
  | next m hopcode hrsv1 =>
    obtain ⟨o, ho, -⟩ := Option.map_eq_some_iff.1 hw
    rw [ho]
    simp [hopcode, hrsv1, hcontinuation]

/-- A frame that may come here is no part of a compressed message or joins one. -/
theorem cases_of_compressed? {b : Bool} (h : x.compressed? f.header = .ok b) :
    f.IsPlain x.walk.message ∨ ∃ m, f.Joins x.walk.message m := by
  rw [compressed?, WireHeader.header_opcode, WireHeader.header_rsv1] at h
  by_cases hc : Opcode.isControl f.opcode = true
  · exact .inl (.inl hc)
  · rw [if_neg hc] at h
    cases hm : x.message with
    | none =>
      have hw : x.walk.message = none := by rw [walk, hm]; rfl
      by_cases hrsv1 : f.rsv1 = true
      · by_cases hopcode : f.opcode = Opcode.continuation
        · exact .inl (.inr ⟨hw, .inr hopcode⟩)
        · rw [hw]
          exact .inr ⟨_, .first (Bool.eq_false_iff.2 hc) hopcode hrsv1⟩
      · exact .inl (.inr ⟨hw, .inl (Bool.eq_false_iff.2 hrsv1)⟩)
    | some o =>
      have hw : x.walk.message = some o.gathering := by rw [walk, hm]; rfl
      rw [hm, Option.isSome_some, if_pos rfl] at h
      split at h
      · cases h
      · next hopcode =>
        split at h
        · cases h
        · next hrsv1 =>
          rw [hw]
          exact .inr ⟨_, .next _ (Decidable.not_not.1 hopcode) (Bool.eq_false_iff.2 hrsv1)⟩

/-- A frame that stays as it is leaves no trace. -/
theorem frame_of_isPlain (h : f.IsPlain x.walk.message) :
    x.frame f.header f.bytes = (.ok f.bytes, x) := by
  rw [frame, compressed?_of_isPlain h]

/-- The message with a frame that joins it. -/
theorem gathering_extend (h : f.Joins x.walk.message m) :
    (x.extend f.header f.payload).gathering = m := by
  generalize hw : x.walk.message = message at h
  cases h with
  | first hcontrol hopcode hrsv1 =>
    rw [extend, Option.map_eq_none_iff.1 hw]
    simp [OpenMessage.gathering, WireHeader.header]
  | next m hopcode hrsv1 =>
    obtain ⟨o, ho, rfl⟩ := Option.map_eq_some_iff.1 hw
    rw [extend, ho]
    simp [OpenMessage.gathering]

theorem IsSound.extend (hx : x.IsSound) (h : f.Joins x.walk.message m) :
    (x.extend f.header f.payload).size = m.payload.length ∧ m.opcode.toNat < 16 := by
  generalize hw : x.walk.message = message at h
  cases h with
  | first hcontrol hopcode hrsv1 =>
    rw [Expander.extend, Option.map_eq_none_iff.1 hw]
    exact ⟨Nat.zero_add _, f.opcode_lt⟩
  | next m hopcode hrsv1 =>
    obtain ⟨o, ho, rfl⟩ := Option.map_eq_some_iff.1 hw
    obtain ⟨hsize, hlt⟩ := hx o ho
    rw [Expander.extend, ho]
    exact ⟨by simp [hsize], hlt⟩

/-- What is done about a frame of a compressed message, said of the message with that frame. -/
theorem frame_of_joins (hx : x.IsSound) (h : f.Joins x.walk.message m)
    (hlength : m.payload.length ≤ maxMessage) :
    x.frame f.header f.bytes =
      if f.final then
        match x.inflater.inflate m.payload with
        | (.ok plain, i) => (.ok (maskedFrame m.opcode plain), ⟨i, none⟩)
        | (.error e, i) => (.error (.inflate e), ⟨i, none⟩)
      else (.ok [], { x with message := some (x.extend f.header f.payload) }) := by
  obtain ⟨hsize, -⟩ := hx.extend h
  have hm := gathering_extend h
  have hparts : (x.extend f.header f.payload).parts.reverse.flatten = m.payload :=
    congrArg Gathering.payload hm
  have hopcode : (x.extend f.header f.payload).opcode = m.opcode := congrArg Gathering.opcode hm
  rw [frame, compressed?_of_joins h, WireFrame.unmask_drop_bytes]
  show x.gather f.header f.payload = _
  rw [gather, hsize, if_neg (Nat.not_lt.2 hlength), hparts, hopcode]
  rfl

theorem frame_of_joins_of_lt (hx : x.IsSound) (h : f.Joins x.walk.message m)
    (hlength : maxMessage < m.payload.length) :
    (x.frame f.header f.bytes).1 = .error .messageTooLarge := by
  obtain ⟨hsize, -⟩ := hx.extend h
  rw [frame, compressed?_of_joins h, WireFrame.unmask_drop_bytes]
  show (x.gather f.header f.payload).1 = _
  rw [gather, hsize, if_pos hlength]

/-- A frame of a compressed message leaves behind what the message has brought with it. -/
theorem isSound_extend (hx : x.IsSound) (h : f.Joins x.walk.message m) :
    IsSound { x with message := some (x.extend f.header f.payload) } ∧
      walk { x with message := some (x.extend f.header f.payload) } = ⟨x.inflater, some m⟩ := by
  obtain ⟨hsize, hlt⟩ := hx.extend h
  have hm := gathering_extend h
  constructor
  · intro o ho
    cases ho
    rw [hm, hsize]
    have hopcode : (x.extend f.header f.payload).opcode = m.opcode := congrArg Gathering.opcode hm
    exact ⟨rfl, hopcode ▸ hlt⟩
  · rw [walk, Option.map_some, hm]

/-- A frame without an error takes the walk one step further. -/
theorem step_of_frame (hx : x.IsSound) (h : x.frame f.header f.bytes = (.ok out, x')) :
    x'.IsSound ∧ Rewrites x.walk [f] out x'.walk := by
  cases hc : x.compressed? f.header with
  | error e =>
    rw [frame, hc] at h
    cases h
  | ok b =>
    rcases cases_of_compressed? hc with hplain | ⟨m, hm⟩
    · rw [frame_of_isPlain hplain] at h
      cases h
      have hstep := Rewrites.copied hplain (.done x.walk)
      rw [List.append_nil] at hstep
      exact ⟨hx, hstep⟩
    · by_cases hlength : m.payload.length ≤ maxMessage
      · rw [frame_of_joins hx hm hlength] at h
        by_cases hfinal : f.final = true
        · rw [if_pos hfinal] at h
          split at h
          · next plain i hi =>
            cases h
            -- The inflated message is short enough for the longest form of a length.
            obtain ⟨g, hg⟩ := WireFrame.exists_isWhole (hx.extend hm).2
              (Nat.lt_trans (Inflater.length_lt_of_inflate hi) (by decide))
            have hstep := Rewrites.inflated hm hfinal hi hg (.done ⟨i, none⟩)
            rw [List.append_nil, hg.bytes_eq] at hstep
            exact ⟨isSound_of_none rfl, hstep⟩
          · cases h
        · rw [if_neg hfinal] at h
          cases h
          obtain ⟨hsound, hwalk⟩ := isSound_extend hx hm
          refine ⟨hsound, .gathered hm (Bool.eq_false_iff.2 hfinal) ?_⟩
          rw [hwalk]
          exact .done _
      · have herror := frame_of_joins_of_lt hx hm (Nat.not_le.1 hlength)
        rw [h] at herror
        cases herror

end Expander

/-! ### Byte strings -/

/-- The expansion with output that was put out before. -/
def Expansion.behind (e : Expansion) (out : Bytes) : Expansion :=
  { e with output := out ++ e.output }

namespace Expansion

@[simp] theorem behind_nil (e : Expansion) : e.behind [] = e := rfl

@[simp] theorem behind_behind (e : Expansion) (out out' : Bytes) :
    (e.behind out).behind out' = e.behind (out' ++ out) := by
  simp only [behind, List.append_assoc]

end Expansion

namespace Expander

variable {x x' : Expander} {f : WireFrame} {out : Bytes}

/-- Where no frame stands at the front, a header announces more than there is. -/
theorem short_of_incomplete {raw : Bytes} (hraw : WireFrame.Incomplete raw) (h : FrameHeader)
    (hr : FrameHeader.read raw = .header h) : raw.length < h.total := by
  rw [← Nat.not_le]
  intro hl
  obtain ⟨f, rest, rfl, -, -⟩ := WireFrame.exists_bytes_of_read hr hl
  exact hraw f ⟨rest, rfl⟩

/-- A header that announces more than there is does not begin a frame. -/
theorem incomplete_of_short {raw : Bytes}
    (hraw : ∀ h : FrameHeader, FrameHeader.read raw = .header h → raw.length < h.total)
    (hr : FrameHeader.read raw ≠ .tooLarge) : WireFrame.Incomplete raw := by
  rintro f ⟨rest, rfl⟩
  by_cases hf : f.payloadLength ≤ maxMessage
  · have hlt := hraw _ (f.read_bytes hf rest)
    rw [List.length_append, f.length_bytes] at hlt
    omega
  · exact hr (f.read_bytes_of_lt (Nat.not_le.1 hf) rest)

/-- A byte string begins with a part of a frame, with a frame that is too long, or with a frame and
what is said of the bytes behind it. -/
theorem bytes_induction {motive : Bytes → Prop}
    (incomplete : ∀ raw, WireFrame.Incomplete raw → FrameHeader.read raw ≠ .tooLarge → motive raw)
    (tooLarge : ∀ raw, FrameHeader.read raw = .tooLarge → motive raw)
    (frame : ∀ (f : WireFrame) (rest : Bytes), f.payloadLength ≤ maxMessage → motive rest →
      motive (f.bytes ++ rest))
    (raw : Bytes) : motive raw := by
  -- The bytes behind a frame are fewer, since no frame is empty.
  induction hn : raw.length using Nat.strongRecOn generalizing raw with
  | _ n ih =>
    by_cases hlarge : FrameHeader.read raw = .tooLarge
    · exact tooLarge raw hlarge
    · by_cases hshort : ∀ h : FrameHeader, FrameHeader.read raw = .header h → raw.length < h.total
      · exact incomplete raw (incomplete_of_short hshort hlarge) hlarge
      · simp only [not_forall, Nat.not_lt] at hshort
        obtain ⟨h, hr, hl⟩ := hshort
        obtain ⟨f, rest, rfl, hf, -⟩ := WireFrame.exists_bytes_of_read hr hl
        have hpos := List.length_pos_iff.2 f.bytes_ne_nil
        rw [List.length_append] at hn
        exact frame f rest hf (ih _ (by omega) rest rfl)

theorem processFrom_of_short (done : List Bytes) {raw : Bytes}
    (h : ∀ h : FrameHeader, FrameHeader.read raw = .header h → raw.length < h.total)
    (hr : FrameHeader.read raw ≠ .tooLarge) :
    x.processFrom done raw = ⟨x, done.reverse.flatten, raw, none⟩ := by
  rw [processFrom]
  split
  · rfl
  · next hlarge => exact absurd hlarge hr
  · next hh hheader => rw [dif_pos (h hh hheader)]

theorem processFrom_of_tooLarge (done : List Bytes) {raw : Bytes}
    (h : FrameHeader.read raw = .tooLarge) :
    x.processFrom done raw = ⟨x, done.reverse.flatten, raw, some .frameTooLarge⟩ := by
  rw [processFrom]
  split
  · next hincomplete =>
    rw [h] at hincomplete
    cases hincomplete
  · rfl
  · next hheader =>
    rw [h] at hheader
    cases hheader

theorem processFrom_frame (done : List Bytes) (hf : f.payloadLength ≤ maxMessage) (rest : Bytes) :
    x.processFrom done (f.bytes ++ rest) =
      match x.frame f.header f.bytes with
      | (.ok out, x') => x'.processFrom (out :: done) rest
      | (.error e, x') => ⟨x', done.reverse.flatten, rest, some e⟩ := by
  have hr := f.read_bytes hf rest
  have hlength : ¬ (f.bytes ++ rest).length < f.header.total := by
    rw [List.length_append, f.length_bytes]
    omega
  conv => lhs; rw [processFrom]
  split
  · next hincomplete =>
    rw [hr] at hincomplete
    cases hincomplete
  · next hlarge =>
    rw [hr] at hlarge
    cases hlarge
  · next h hheader =>
    rw [hr] at hheader
    cases hheader
    rw [List.take_left' f.length_bytes, List.drop_left' f.length_bytes]
    exact dif_neg hlength

/-- What was put out before is kept in front. -/
theorem processFrom_eq (x : Expander) (done : List Bytes) (raw : Bytes) :
    x.processFrom done raw = (x.process raw).behind done.reverse.flatten := by
  induction raw using bytes_induction generalizing x done with
  | incomplete raw hincomplete hr =>
    have hshort := short_of_incomplete hincomplete
    rw [process, processFrom_of_short done hshort hr, processFrom_of_short [] hshort hr]
    simp [Expansion.behind]
  | tooLarge raw hlarge =>
    rw [process, processFrom_of_tooLarge done hlarge, processFrom_of_tooLarge [] hlarge]
    simp [Expansion.behind]
  | frame f rest hf ih =>
    rw [process, processFrom_frame done hf, processFrom_frame [] hf]
    rcases x.frame f.header f.bytes with ⟨e | out, x'⟩
    · simp [Expansion.behind]
    · dsimp only
      rw [ih x' (out :: done), ih x' [out]]
      simp

/-- Without a complete frame nothing happens. -/
theorem process_of_incomplete {raw : Bytes} (h : WireFrame.Incomplete raw)
    (hr : FrameHeader.read raw ≠ .tooLarge) : x.process raw = ⟨x, [], raw, none⟩ :=
  processFrom_of_short [] (short_of_incomplete h) hr

theorem process_of_tooLarge {raw : Bytes} (h : FrameHeader.read raw = .tooLarge) :
    x.process raw = ⟨x, [], raw, some .frameTooLarge⟩ :=
  processFrom_of_tooLarge [] h

/-- The frame at the front is expanded, and then what follows it. -/
theorem process_frame (x : Expander) (hf : f.payloadLength ≤ maxMessage) (rest : Bytes) :
    x.process (f.bytes ++ rest) =
      match x.frame f.header f.bytes with
      | (.ok out, x') => (x'.process rest).behind out
      | (.error e, x') => ⟨x', [], rest, some e⟩ := by
  rw [process, processFrom_frame [] hf]
  rcases x.frame f.header f.bytes with ⟨e | out, x'⟩
  · rfl
  · dsimp only
    rw [processFrom_eq]
    simp

/-- **It does not matter where the bytes are cut.** Processing that met no error goes on with the
bytes behind the last frame. -/
theorem process_append (x : Expander) (raw more : Bytes) (h : (x.process raw).error = none) :
    x.process (raw ++ more) =
      ((x.process raw).expander.process ((x.process raw).rest ++ more)).behind
        (x.process raw).output := by
  induction raw using bytes_induction generalizing x with
  | incomplete raw hincomplete hr =>
    rw [process_of_incomplete hincomplete hr, Expansion.behind_nil]
  | tooLarge raw hlarge =>
    rw [process_of_tooLarge hlarge] at h
    cases h
  | frame f rest hf ih =>
    rw [process_frame x hf] at h ⊢
    rw [List.append_assoc, process_frame x hf]
    rcases hframe : x.frame f.header f.bytes with ⟨e | out, x'⟩
    · rw [hframe] at h
      cases h
    · rw [hframe] at h
      dsimp only at h ⊢
      rw [ih x' h, Expansion.behind_behind]
      rfl

/-- An error is met wherever the bytes are cut. -/
theorem process_append_of_error (x : Expander) (raw more : Bytes) {e : ExpandError}
    (h : (x.process raw).error = some e) :
    x.process (raw ++ more) =
      { x.process raw with rest := (x.process raw).rest ++ more } := by
  induction raw using bytes_induction generalizing x with
  | incomplete raw hincomplete hr =>
    rw [process_of_incomplete hincomplete hr] at h
    cases h
  | tooLarge raw hlarge =>
    -- The header is already there, so more bytes do not change what it announces.
    have hmore : FrameHeader.read (raw ++ more) = .tooLarge := by
      rw [WireHeader.read_append (by rw [hlarge]; simp), hlarge]
    rw [process_of_tooLarge hlarge, process_of_tooLarge hmore]
  | frame f rest hf ih =>
    rw [process_frame x hf] at h ⊢
    rw [List.append_assoc, process_frame x hf]
    rcases hframe : x.frame f.header f.bytes with ⟨e | out, x'⟩
    · rfl
    · rw [hframe] at h
      dsimp only
      rw [ih x' h]
      rfl

/-- Without an error all frames were rewritten, and what is left is not a frame. -/
theorem rewrites_of_process {x : Expander} (hx : x.IsSound) (raw : Bytes)
    (h : (x.process raw).error = none) :
    (x.process raw).expander.IsSound ∧
      WireFrame.Incomplete (x.process raw).rest ∧
      ∃ frames, raw = WireFrame.join frames ++ (x.process raw).rest ∧
        Rewrites x.walk frames (x.process raw).output (x.process raw).expander.walk := by
  induction raw using bytes_induction generalizing x with
  | incomplete raw hincomplete hr =>
    rw [process_of_incomplete hincomplete hr]
    exact ⟨hx, hincomplete, [], rfl, .done _⟩
  | tooLarge raw hlarge =>
    rw [process_of_tooLarge hlarge] at h
    cases h
  | frame f rest hf ih =>
    rw [process_frame x hf] at h ⊢
    rcases hframe : x.frame f.header f.bytes with ⟨e | out, x'⟩
    · rw [hframe] at h
      cases h
    · rw [hframe] at h
      obtain ⟨hx', hstep⟩ := step_of_frame hx hframe
      obtain ⟨hsound, hrest, frames, hraw, hrewrites⟩ := ih hx' h
      refine ⟨hsound, hrest, f :: frames, ?_, ?_⟩
      · rw [WireFrame.join_cons, List.append_assoc]
        exact congrArg (f.bytes ++ ·) hraw
      · exact hstep.append hrewrites

end Expander

end Switchyard
