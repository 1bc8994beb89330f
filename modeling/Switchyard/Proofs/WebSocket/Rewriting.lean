import Switchyard.Proofs.WebSocket.WireFrame

/-!
# What becomes of a client's frames

`Rewrites` says, frame by frame, what a client's frames are turned into when compressed messages are
allowed: the frames of a compressed message give one plain frame in the place of the last of them, and
every other frame stays as it is. `Rewriting` says it of byte strings, where an incomplete frame at the
end stays as well. There is at most one way to rewrite a byte string (`Rewriting.unique`).
-/

namespace Switchyard

/-- A compressed message of which frames are missing: what its frames brought so far, without masks. -/
structure Gathering where
  /-- The opcode of the first frame. -/
  opcode : UInt8
  payload : Bytes

/-- How far a client's frames were walked through. -/
structure Walk where
  /-- What the messages so far have left behind for the next ones. -/
  inflater : Inflater
  /-- The compressed message that has begun. -/
  message : Option Gathering

/-- Nothing was sent. -/
def Walk.start : Walk := ⟨.start, none⟩

namespace WireFrame

/-- The frame stays as it is: it is a control frame; or no compressed message has begun, and it does
not begin one, be it that its message is not compressed or that it goes on with one. -/
def IsPlain (f : WireFrame) (message : Option Gathering) : Prop :=
  Opcode.isControl f.opcode = true ∨
    message = none ∧ (f.rsv1 = false ∨ f.opcode = Opcode.continuation)

/-- The frame belongs to a compressed message, which it begins or goes on with. -/
inductive Joins (f : WireFrame) : Option Gathering → Gathering → Prop where
  | first (hcontrol : Opcode.isControl f.opcode = false) (hopcode : f.opcode ≠ Opcode.continuation)
      (hrsv1 : f.rsv1 = true) : Joins f none ⟨f.opcode, f.payload⟩
  | next (m : Gathering) (hopcode : f.opcode = Opcode.continuation) (hrsv1 : f.rsv1 = false) :
      Joins f (some m) ⟨m.opcode, m.payload ++ f.payload⟩

/-- The frame is a whole message that is not compressed, with a key of zeros. -/
structure IsWhole (f : WireFrame) (opcode : UInt8) (payload : Bytes) : Prop where
  final : f.final = true
  rsv1 : f.rsv1 = false
  rsv2 : f.rsv2 = false
  rsv3 : f.rsv3 = false
  opcode_eq : f.opcode = opcode
  key : f.key = some MaskKey.zero
  form : f.form = .shortest payload.length
  payload_eq : f.payload = payload

end WireFrame

/-- From one walk to another, frames are turned into bytes. -/
inductive Rewrites : Walk → List WireFrame → Bytes → Walk → Prop where
  | done (w : Walk) : Rewrites w [] [] w
  | copied {w w' : Walk} {f : WireFrame} {fs : List WireFrame} {out : Bytes}
      (hf : f.IsPlain w.message) (h : Rewrites w fs out w') :
      Rewrites w (f :: fs) (f.bytes ++ out) w'
  | gathered {w w' : Walk} {f : WireFrame} {fs : List WireFrame} {out : Bytes} {m : Gathering}
      (hf : f.Joins w.message m) (hfinal : f.final = false)
      (h : Rewrites ⟨w.inflater, some m⟩ fs out w') :
      Rewrites w (f :: fs) out w'
  | inflated {w w' : Walk} {f g : WireFrame} {fs : List WireFrame} {out plain : Bytes}
      {m : Gathering} {i : Inflater} (hf : f.Joins w.message m) (hfinal : f.final = true)
      (hi : w.inflater.inflate m.payload = (.ok plain, i)) (hg : g.IsWhole m.opcode plain)
      (h : Rewrites ⟨i, none⟩ fs out w') :
      Rewrites w (f :: fs) (g.bytes ++ out) w'

/-- What a client's bytes are turned into: its frames are rewritten, and the bytes of a frame that is
not complete are kept behind them. -/
def Rewriting (input output : Bytes) : Prop :=
  ∃ (frames : List WireFrame) (trailing out : Bytes) (w : Walk),
    input = WireFrame.join frames ++ trailing ∧ WireFrame.Incomplete trailing ∧
      Rewrites .start frames out w ∧ output = out ++ trailing

/-! ### Whole messages -/

namespace WireFrame

theorem or_opcode {opcode : UInt8} (h : opcode.toNat < 16) :
    0x80 ||| opcode = UInt8.ofNat (128 + opcode.toNat) := by
  have h128 : (0x80 : UInt8).toNat = 2 ^ 7 * 1 := rfl
  rw [← UInt8.toNat_inj, UInt8.toNat_or, UInt8.toNat_ofNat', h128,
    ← Nat.two_pow_add_eq_or_of_lt (show opcode.toNat < 2 ^ 7 by omega) 1]
  omega

/-- The length of a message is written in the shortest form. -/
theorem lengthField_eq (n : Nat) :
    FrameHeader.lengthField n =
      ((LengthForm.shortest n).marker n, Bytes.ofNat (LengthForm.shortest n).width n) := by
  unfold FrameHeader.lengthField LengthForm.shortest
  split
  · rfl
  · split <;> rfl

theorem unmask_zero (payload : Bytes) :
    FrameHeader.unmask (some MaskKey.zero.val) payload = payload := by
  refine List.ext_getElem (length_unmask _ _) fun i _ _ => ?_
  have hkey : ∀ k, k < 4 → MaskKey.zero.val.getD k 0 = 0 := by decide
  simp only [FrameHeader.unmask, List.getElem_mapIdx, hkey _ (Nat.mod_lt i (by decide)),
    UInt8.xor_zero]

/-- There is only one frame for a whole message. -/
theorem IsWhole.bytes_eq {f : WireFrame} {opcode : UInt8} {payload : Bytes}
    (h : f.IsWhole opcode payload) : f.bytes = maskedFrame opcode payload := by
  have hlength : f.payloadLength = payload.length := by rw [← f.length_payload, h.payload_eq]
  have hopcode := f.opcode_lt
  rw [h.opcode_eq] at hopcode
  have hmask : f.maskedPayload = payload := by
    rw [maskedPayload_eq, h.key, h.payload_eq]
    exact unmask_zero payload
  have hfirst : f.firstByte = 0x80 ||| opcode := by
    rw [WireHeader.firstByte, h.final, h.rsv1, h.rsv2, h.rsv3, h.opcode_eq, or_opcode hopcode]
    rfl
  have hsecond : f.secondByte =
      UInt8.ofNat (128 + (LengthForm.shortest payload.length).marker payload.length) := by
    rw [WireHeader.secondByte, h.key, h.form, hlength]
    rfl
  have hfields : f.fields =
      Bytes.ofNat (LengthForm.shortest payload.length).width payload.length ++ [0, 0, 0, 0] := by
    rw [WireHeader.fields, WireHeader.keyBytes, h.key, h.form, hlength]
    rfl
  simp only [bytes, WireHeader.bytes, maskedFrame, lengthField_eq, hfirst, hsecond, hfields, hmask,
    List.cons_append]

/-- Every message that is not immensely long has a frame. -/
theorem exists_isWhole {opcode : UInt8} {payload : Bytes} (hopcode : opcode.toNat < 16)
    (hlength : payload.length < Nat.pow 256 8) :
    ∃ f : WireFrame, f.IsWhole opcode payload :=
  ⟨{ final := true, rsv1 := false, rsv2 := false, rsv3 := false, opcode, opcode_lt := hopcode,
      form := .shortest payload.length, payloadLength := payload.length,
      payloadLength_lt := LengthForm.lt_limit_shortest hlength, key := some MaskKey.zero, payload,
      length_payload := rfl },
    ⟨rfl, rfl, rfl, rfl, rfl, rfl, rfl, rfl⟩⟩

/-! ### There is only one rewriting -/

theorem Joins.not_isPlain {f : WireFrame} {message : Option Gathering} {m : Gathering}
    (h : f.Joins message m) : ¬ f.IsPlain message := by
  have hcontinuation : Opcode.isControl Opcode.continuation = false := rfl
  intro hp
  cases h with
  | first hcontrol hopcode hrsv1 =>
    rcases hp with hc | ⟨-, hr | hc⟩
    · rw [hcontrol] at hc
      cases hc
    · rw [hrsv1] at hr
      cases hr
    · exact hopcode hc
  | next m hopcode hrsv1 =>
    rcases hp with hc | ⟨hn, -⟩
    · rw [hopcode, hcontinuation] at hc
      cases hc
    · cases hn

theorem Joins.unique {f : WireFrame} {message : Option Gathering} {m n : Gathering}
    (hm : f.Joins message m) (hn : f.Joins message n) : m = n := by
  cases hm <;> cases hn <;> rfl

end WireFrame

theorem Rewrites.unique {w v v' : Walk} {fs : List WireFrame} {out out' : Bytes}
    (h : Rewrites w fs out v) (h' : Rewrites w fs out' v') : out = out' ∧ v = v' := by
  -- By the steps of the first rewriting: at each frame the second one can only take the same step.
  induction h generalizing out' with
  | done w =>
    cases h'
    exact ⟨rfl, rfl⟩
  | copied hf _ ih =>
    cases h' with
    | copied _ h' =>
      obtain ⟨rfl, rfl⟩ := ih h'
      exact ⟨rfl, rfl⟩
    | gathered hf' _ _ => exact absurd hf hf'.not_isPlain
    | inflated hf' _ _ _ _ => exact absurd hf hf'.not_isPlain
  | gathered hf hfinal _ ih =>
    cases h' with
    | copied hf' _ => exact absurd hf' hf.not_isPlain
    | gathered hf' _ h' =>
      obtain rfl := hf.unique hf'
      exact ih h'
    | inflated _ hfinal' _ _ _ =>
      rw [hfinal] at hfinal'
      cases hfinal'
  | inflated hf hfinal hi hg _ ih =>
    cases h' with
    | copied hf' _ => exact absurd hf' hf.not_isPlain
    | gathered _ hfinal' _ =>
      rw [hfinal] at hfinal'
      cases hfinal'
    | inflated hf' _ hi' hg' h' =>
      obtain rfl := hf.unique hf'
      obtain ⟨hplain, rfl⟩ := Prod.mk.inj (hi.symm.trans hi')
      cases hplain
      obtain ⟨rfl, hv⟩ := ih h'
      exact ⟨by rw [hg.bytes_eq, hg'.bytes_eq], hv⟩

/-- Frames are rewritten one after the other. -/
theorem Rewrites.append {w v u : Walk} {fs gs : List WireFrame} {out out' : Bytes}
    (h : Rewrites w fs out v) (h' : Rewrites v gs out' u) :
    Rewrites w (fs ++ gs) (out ++ out') u := by
  induction h with
  | done w => exact h'
  | copied hf _ ih =>
    rw [List.append_assoc]
    exact .copied hf (ih h')
  | gathered hf hfinal _ ih => exact .gathered hf hfinal (ih h')
  | inflated hf hfinal hi hg _ ih =>
    rw [List.append_assoc]
    exact .inflated hf hfinal hi hg (ih h')

theorem Rewriting.unique {input output output' : Bytes} (h : Rewriting input output)
    (h' : Rewriting input output') : output = output' := by
  obtain ⟨fs, t, out, w, hinput, ht, hr, rfl⟩ := h
  obtain ⟨fs', t', out', w', hinput', ht', hr', rfl⟩ := h'
  obtain ⟨rfl, rfl⟩ := WireFrame.join_append_inj ht ht' (hinput.symm.trans hinput')
  rw [(hr.unique hr').1]

end Switchyard
