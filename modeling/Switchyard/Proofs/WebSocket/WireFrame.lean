import Mathlib.Data.List.Rotate
import Switchyard.Proofs.WebSocket.WireHeader

/-!
# Frames on the wire

A frame is a header and the payload it announces, masked with the key of the header (RFC 6455, section
5.3), and `FrameHeader.unmask` takes that mask off (`mask_keyBytes`). A byte string is a sequence of
frames and a rest at whose front no frame stands, and it is so in one way only (`join_append_inj`).
`FrameHeader.read` sees the frame at the front if it is not too long (`read_bytes`,
`exists_bytes_of_read`).
-/

namespace Switchyard

/-- A header and the payload that it announces, without its mask. -/
structure WireFrame extends WireHeader where
  payload : Bytes
  length_payload : payload.length = payloadLength

namespace WireFrame

/-! ### Masking -/

/-- Bytes with a mask on them. The first byte of the key is used and goes to its back. -/
def mask : Bytes → Bytes → Bytes
  | k :: key, b :: bs => (b ^^^ k) :: mask (key ++ [k]) bs
  | _, bs => bs

/-- The key is used over and over. -/
theorem getElem?_mask {key : Bytes} (hkey : key ≠ []) (bs : Bytes) (i : Nat) :
    (mask key bs)[i]? = bs[i]?.map fun b => b ^^^ key.getD (i % key.length) 0 := by
  induction bs generalizing key i with
  | nil => cases key <;> rfl
  | cons b bs ih =>
    obtain ⟨k, key, rfl⟩ := List.exists_cons_of_ne_nil hkey
    rw [mask]
    cases i with
    | zero => simp
    | succ i =>
      -- The key that is used from here on has its first byte at the back.
      have hrotate : key ++ [k] = (k :: key).rotate 1 := by simp
      have hlt : i % (k :: key).length < (k :: key).length := Nat.mod_lt _ (Nat.succ_pos _)
      rw [List.getElem?_cons_succ, List.getElem?_cons_succ, ih (by simp), hrotate,
        List.length_rotate, List.getD_eq_getElem?_getD, List.getElem?_rotate hlt, Nat.mod_add_mod,
        ← List.getD_eq_getElem?_getD]

/-- The mask of a frame is the one that is taken off when the frame is read. -/
theorem mask_keyBytes (w : WireHeader) (bs : Bytes) :
    mask w.keyBytes bs = FrameHeader.unmask (w.key.map Subtype.val) bs := by
  unfold WireHeader.keyBytes
  cases w.key with
  | none => cases bs <;> rfl
  | some key =>
    have hlength : key.val.length = 4 := key.2
    have hkey : key.val ≠ [] := List.ne_nil_of_length_eq_add_one hlength
    apply List.ext_getElem?
    intro i
    show (mask key.val bs)[i]? = (FrameHeader.unmask (some key.val) bs)[i]?
    rw [getElem?_mask hkey, FrameHeader.unmask, List.getElem?_mapIdx, hlength]

/-- The payload as it stands on the wire. -/
def maskedPayload (f : WireFrame) : Bytes :=
  mask f.keyBytes f.payload

theorem maskedPayload_eq (f : WireFrame) :
    f.maskedPayload = FrameHeader.unmask (f.key.map Subtype.val) f.payload :=
  mask_keyBytes f.toWireHeader f.payload

/-! ### Frames -/

/-- The bytes of a frame. -/
def bytes (f : WireFrame) : Bytes :=
  f.toWireHeader.bytes ++ f.maskedPayload

/-- The bytes of frames that follow one another. -/
def join (frames : List WireFrame) : Bytes :=
  frames.flatMap bytes

@[simp] theorem join_nil : join [] = [] := rfl

@[simp] theorem join_cons (f : WireFrame) (fs : List WireFrame) :
    join (f :: fs) = f.bytes ++ join fs := rfl

@[simp] theorem join_append (fs gs : List WireFrame) : join (fs ++ gs) = join fs ++ join gs :=
  List.flatMap_append

theorem length_unmask (key : Option Bytes) (payload : Bytes) :
    (FrameHeader.unmask key payload).length = payload.length := by
  cases key <;> simp [FrameHeader.unmask]

/-- Masking twice with one key changes nothing. -/
theorem unmask_unmask (key : Option Bytes) (payload : Bytes) :
    FrameHeader.unmask key (FrameHeader.unmask key payload) = payload := by
  cases key with
  | none => rfl
  | some key =>
    simp only [FrameHeader.unmask, List.mapIdx_mapIdx]
    refine List.ext_getElem (by simp) fun i _ _ => ?_
    simp only [List.getElem_mapIdx, Function.comp_apply, UInt8.xor_assoc, UInt8.xor_self,
      UInt8.xor_zero]

@[simp] theorem length_maskedPayload (f : WireFrame) :
    f.maskedPayload.length = f.payloadLength := by
  rw [maskedPayload_eq, length_unmask, f.length_payload]

theorem length_bytes (f : WireFrame) : f.bytes.length = f.header.total := by
  rw [bytes, List.length_append, WireHeader.length_bytes, length_maskedPayload]
  rfl

theorem bytes_ne_nil (f : WireFrame) : f.bytes ≠ [] :=
  List.cons_ne_nil _ _

/-- The payload of a frame is found behind its header. -/
theorem unmask_drop_bytes (f : WireFrame) :
    FrameHeader.unmask f.header.key (f.bytes.drop f.header.length) = f.payload := by
  rw [bytes, List.drop_left' (WireHeader.length_bytes _), maskedPayload_eq]
  exact unmask_unmask _ _

/-- A frame that is not too long is seen, whatever follows it. -/
theorem read_bytes (f : WireFrame) (h : f.payloadLength ≤ maxMessage) (rest : Bytes) :
    FrameHeader.read (f.bytes ++ rest) = .header f.header := by
  rw [bytes, List.append_assoc, WireHeader.read_bytes, if_neg (Nat.not_lt.2 h)]

theorem read_bytes_of_lt (f : WireFrame) (h : maxMessage < f.payloadLength) (rest : Bytes) :
    FrameHeader.read (f.bytes ++ rest) = .tooLarge := by
  rw [bytes, List.append_assoc, WireHeader.read_bytes, if_pos h]

/-- A header with enough bytes behind it begins a frame. -/
theorem exists_bytes_of_read {raw : Bytes} {h : FrameHeader} (hr : FrameHeader.read raw = .header h)
    (hl : h.total ≤ raw.length) :
    ∃ (f : WireFrame) (rest : Bytes), raw = f.bytes ++ rest ∧ f.payloadLength ≤ maxMessage ∧
      f.header = h := by
  have hne : FrameHeader.read raw ≠ .incomplete := by rw [hr]; exact HeaderRead.noConfusion
  obtain ⟨w, rest, rfl⟩ := WireHeader.exists_bytes_of_read hne
  rw [WireHeader.read_bytes] at hr
  split at hr
  · cases hr
  · next hmax =>
    cases hr
    rw [List.length_append, WireHeader.length_bytes] at hl
    have hle : w.payloadLength ≤ rest.length := Nat.le_of_add_le_add_left hl
    -- The payload is found by masking what stands on the wire once more.
    let payload := FrameHeader.unmask (w.key.map Subtype.val) (rest.take w.payloadLength)
    have hpayload : payload.length = w.payloadLength := by
      rw [length_unmask, List.length_take_of_le hle]
    refine ⟨⟨w, payload, hpayload⟩, rest.drop w.payloadLength, ?_, Nat.not_lt.1 hmax, rfl⟩
    simp only [bytes, maskedPayload_eq, payload, unmask_unmask, List.append_assoc,
      List.take_append_drop]

/-- No frame is the beginning of another one. -/
theorem bytes_append_inj {f g : WireFrame} {xs ys : Bytes} (h : f.bytes ++ xs = g.bytes ++ ys) :
    f = g ∧ xs = ys := by
  obtain ⟨w, payload, hw⟩ := f
  obtain ⟨w', payload', hw'⟩ := g
  simp only [bytes, List.append_assoc] at h
  obtain ⟨rfl, h⟩ := WireHeader.bytes_append_inj h
  obtain ⟨hpayload, hrest⟩ := List.append_inj h (by simp)
  have hunmasked := congrArg (FrameHeader.unmask (w.key.map Subtype.val)) hpayload
  simp only [maskedPayload_eq, unmask_unmask] at hunmasked
  subst hunmasked
  exact ⟨rfl, hrest⟩

/-- No frame stands at the front of the bytes. -/
def Incomplete (raw : Bytes) : Prop :=
  ∀ f : WireFrame, ¬ f.bytes <+: raw

/-- A byte string is taken apart into frames in one way only. -/
theorem join_append_inj {fs gs : List WireFrame} {xs ys : Bytes} (hx : Incomplete xs)
    (hy : Incomplete ys) (h : join fs ++ xs = join gs ++ ys) : fs = gs ∧ xs = ys := by
  induction fs generalizing gs with
  | nil =>
    cases gs with
    | nil => exact ⟨rfl, h⟩
    | cons g gs =>
      rw [join_nil, List.nil_append, join_cons, List.append_assoc] at h
      exact absurd ⟨_, h.symm⟩ (hx g)
  | cons f fs ih =>
    cases gs with
    | nil =>
      rw [join_nil, List.nil_append, join_cons, List.append_assoc] at h
      exact absurd ⟨_, h⟩ (hy f)
    | cons g gs =>
      simp only [join_cons, List.append_assoc] at h
      obtain ⟨rfl, hrest⟩ := bytes_append_inj h
      obtain ⟨hfs, hxs⟩ := ih hrest
      exact ⟨congrArg (f :: ·) hfs, hxs⟩

end WireFrame

end Switchyard
