import Switchyard.Proofs.Bytes
import Switchyard.WebSocket.Frame

/-!
# Headers on the wire

The format of frame headers (RFC 6455, section 5.2), written down from the side of the sender: the
flags and the opcode in a byte, the length of the payload in one of three forms, and the key if there
is one. `FrameHeader.read` reads such headers back, whatever follows them (`read_bytes`), and reads
nothing else (`exists_bytes_of_read`). So what it says about a byte string does not change when more
bytes arrive, unless the header was incomplete (`read_append`). No header is the beginning of another
one (`bytes_append_inj`).
-/

namespace Switchyard

/-! ### The forms of a length -/

/-- How a header writes the length of the payload. -/
inductive LengthForm where
  /-- In seven bits. -/
  | short
  /-- In two bytes. -/
  | medium
  /-- In eight bytes. -/
  | long
  deriving DecidableEq, Repr

namespace LengthForm

/-- How many bytes hold the length, besides the seven bits that are always there. -/
def width : LengthForm → Nat
  | short => 0
  | medium => 2
  | long => 8

/-- What stands in the seven bits. -/
def marker : LengthForm → Nat → Nat
  | short, n => n
  | medium, _ => 126
  | long, _ => 127

/-- Lengths below the limit can be written. -/
def limit : LengthForm → Nat
  | short => 126
  | medium => Nat.pow 256 2
  | long => Nat.pow 256 8

/-- The shortest form for a length. -/
def shortest (n : Nat) : LengthForm :=
  if n < 126 then short else if n < 65536 then medium else long

theorem lt_limit_shortest {n : Nat} (h : n < Nat.pow 256 8) : n < (shortest n).limit := by
  unfold shortest
  split
  · assumption
  · split
    · assumption
    · exact h

variable {f : LengthForm} {n : Nat}

theorem marker_lt (h : n < f.limit) : f.marker n < 128 := by
  cases f with
  | short => exact Nat.lt_trans h (by decide)
  | medium => show 126 < 128; decide
  | long => show 127 < 128; decide

@[simp] theorem extraLengthBytes_marker (h : n < f.limit) :
    FrameHeader.extraLengthBytes (f.marker n) = f.width := by
  cases f with
  | short =>
    have hn : n < 126 := h
    show FrameHeader.extraLengthBytes n = 0
    rw [FrameHeader.extraLengthBytes, if_neg (by omega), if_neg (by omega)]
  | medium => rfl
  | long => rfl

/-- The length that the seven bits and the bytes behind them write. -/
theorem toNat_ofNat_width (h : n < f.limit) :
    (if f.width = 0 then f.marker n else Bytes.toNat (Bytes.ofNat f.width n)) = n := by
  cases f with
  | short => rfl
  | medium => exact (Bytes.toNat_ofNat 2 n).trans (Nat.mod_eq_of_lt h)
  | long => exact (Bytes.toNat_ofNat 8 n).trans (Nat.mod_eq_of_lt h)

end LengthForm

/-- The four bytes with which a payload is masked. -/
abbrev MaskKey := { key : Bytes // key.length = 4 }

/-- The key that leaves payloads as they are. -/
def MaskKey.zero : MaskKey := ⟨[0, 0, 0, 0], rfl⟩

/-! ### Headers -/

/-- What a header says. -/
structure WireHeader where
  final : Bool
  rsv1 : Bool
  rsv2 : Bool
  rsv3 : Bool
  opcode : UInt8
  opcode_lt : opcode.toNat < 16
  form : LengthForm
  /-- How many bytes follow the header. -/
  payloadLength : Nat
  payloadLength_lt : payloadLength < form.limit
  key : Option MaskKey

namespace WireHeader

/-- The flags and the opcode. -/
def firstByte (w : WireHeader) : UInt8 :=
  UInt8.ofNat (128 * w.final.toNat + 64 * w.rsv1.toNat + 32 * w.rsv2.toNat + 16 * w.rsv3.toNat +
    w.opcode.toNat)

/-- The mask bit and seven bits for the length. -/
def secondByte (w : WireHeader) : UInt8 :=
  UInt8.ofNat (128 * w.key.isSome.toNat + w.form.marker w.payloadLength)

/-- The bytes of the key, if there is one. -/
def keyBytes (w : WireHeader) : Bytes :=
  (w.key.map Subtype.val).getD []

/-- The bytes behind the first two. -/
def fields (w : WireHeader) : Bytes :=
  Bytes.ofNat w.form.width w.payloadLength ++ w.keyBytes

/-- The bytes of a header. -/
def bytes (w : WireHeader) : Bytes :=
  w.firstByte :: w.secondByte :: w.fields

/-- The header as it is read. -/
def header (w : WireHeader) : FrameHeader where
  final := w.final
  rsv1 := w.rsv1
  rsv2 := w.rsv2
  rsv3 := w.rsv3
  opcode := w.opcode
  key := w.key.map Subtype.val
  length := 2 + w.form.width + w.keyBytes.length
  payloadLength := w.payloadLength

@[simp] theorem header_final (w : WireHeader) : w.header.final = w.final := rfl

@[simp] theorem header_rsv1 (w : WireHeader) : w.header.rsv1 = w.rsv1 := rfl

@[simp] theorem header_opcode (w : WireHeader) : w.header.opcode = w.opcode := rfl

theorem length_keyBytes (w : WireHeader) :
    w.keyBytes.length = if w.key.isSome then 4 else 0 := by
  unfold keyBytes
  cases w.key with
  | none => rfl
  | some key => exact key.2

@[simp] theorem length_fields (w : WireHeader) :
    w.fields.length = w.form.width + w.keyBytes.length := by
  simp [fields]

@[simp] theorem length_bytes (w : WireHeader) : w.bytes.length = w.header.length := by
  simp only [bytes, header, List.length_cons, length_fields]
  omega

theorem toNat_firstByte (w : WireHeader) :
    w.firstByte.toNat = 128 * w.final.toNat + 64 * w.rsv1.toNat + 32 * w.rsv2.toNat +
      16 * w.rsv3.toNat + w.opcode.toNat := by
  have h1 := Bool.toNat_le w.final
  have h2 := Bool.toNat_le w.rsv1
  have h3 := Bool.toNat_le w.rsv2
  have h4 := Bool.toNat_le w.rsv3
  have h5 := w.opcode_lt
  rw [firstByte, UInt8.toNat_ofNat']
  exact Nat.mod_eq_of_lt (by omega)

theorem toNat_secondByte (w : WireHeader) :
    w.secondByte.toNat = 128 * w.key.isSome.toNat + w.form.marker w.payloadLength := by
  have h1 := Bool.toNat_le w.key.isSome
  have h2 := LengthForm.marker_lt w.payloadLength_lt
  rw [secondByte, UInt8.toNat_ofNat']
  exact Nat.mod_eq_of_lt (by omega)

/-- The flags stand in the upper four bits of the first byte and the opcode in the others. -/
theorem flags_firstByte (w : WireHeader) :
    w.firstByte.toNat.testBit 7 = w.final ∧ w.firstByte.toNat.testBit 6 = w.rsv1 ∧
      w.firstByte.toNat.testBit 5 = w.rsv2 ∧ w.firstByte.toNat.testBit 4 = w.rsv3 ∧
      w.firstByte % 16 = w.opcode := by
  have h := w.toNat_firstByte
  have h5 := w.opcode_lt
  have hop : w.firstByte % 16 = w.opcode := by
    have h16 : (16 : UInt8).toNat = 16 := rfl
    rw [← UInt8.toNat_inj, UInt8.toNat_mod, h, h16]
    omega
  -- With the flags known, each bit is a question about the opcode, which is below the flags.
  refine ⟨?_, ?_, ?_, ?_, hop⟩ <;> rw [Nat.testBit_eq_decide_div_mod_eq, h] <;>
    rcases Bool.eq_false_or_eq_true w.final with h1 | h1 <;>
    rcases Bool.eq_false_or_eq_true w.rsv1 with h2 | h2 <;>
    rcases Bool.eq_false_or_eq_true w.rsv2 with h3 | h3 <;>
    rcases Bool.eq_false_or_eq_true w.rsv3 with h4 | h4 <;>
    simp only [h1, h2, h3, h4, Bool.toNat_true, Bool.toNat_false] <;>
    first
      | exact decide_eq_true (by omega)
      | exact decide_eq_false (by omega)

/-- The mask bit and the other seven bits of the second byte. -/
theorem parts_secondByte (w : WireHeader) :
    (128 ≤ w.secondByte.toNat ↔ w.key.isSome) ∧
      w.secondByte.toNat % 128 = w.form.marker w.payloadLength := by
  have h := w.toNat_secondByte
  have hm := LengthForm.marker_lt w.payloadLength_lt
  cases hk : w.key.isSome with
  | false =>
    simp only [hk, Bool.toNat_false] at h
    exact ⟨by simp only [Bool.false_eq_true, iff_false]; omega, by omega⟩
  | true =>
    simp only [hk, Bool.toNat_true] at h
    exact ⟨by simp only [iff_true]; omega, by omega⟩

/-! ### Reading headers -/

/-- A header is read back, whatever follows it, unless it announces too much. -/
theorem read_bytes (w : WireHeader) (rest : Bytes) :
    FrameHeader.read (w.bytes ++ rest) =
      if maxMessage < w.payloadLength then .tooLarge else .header w.header := by
  obtain ⟨hfinal, hrsv1, hrsv2, hrsv3, hopcode⟩ := w.flags_firstByte
  obtain ⟨hmask, hmarker⟩ := w.parts_secondByte
  have hwidth : FrameHeader.extraLengthBytes (w.secondByte.toNat % 128) = w.form.width := by
    rw [hmarker, LengthForm.extraLengthBytes_marker w.payloadLength_lt]
  have hkey : (if 128 ≤ w.secondByte.toNat then 4 else 0) = w.keyBytes.length := by
    rw [length_keyBytes]
    simp only [hmask]
  have htake : (w.fields ++ rest).take (w.form.width + w.keyBytes.length) = w.fields := by
    rw [← length_fields, List.take_left]
  have hlength : (if w.form.width = 0 then w.secondByte.toNat % 128
      else Bytes.toNat (w.fields.take w.form.width)) = w.payloadLength := by
    rw [hmarker, fields, List.take_left' (Bytes.length_ofNat ..)]
    exact LengthForm.toNat_ofNat_width w.payloadLength_lt
  have hdrop : (if 128 ≤ w.secondByte.toNat then some (w.fields.drop w.form.width) else none) =
      w.key.map Subtype.val := by
    rw [fields, List.drop_left' (Bytes.length_ofNat ..), keyBytes]
    simp only [hmask]
    cases w.key <;> rfl
  simp only [bytes, List.cons_append, FrameHeader.read, hwidth, hkey, htake, hlength, hdrop,
    length_fields, Nat.lt_irrefl, if_false, hfinal, hrsv1, hrsv2, hrsv3, hopcode, header]

/-- The first byte of a frame, taken apart and put together again. -/
theorem ofNat_flags (b : UInt8) :
    UInt8.ofNat (128 * (b.toNat.testBit 7).toNat + 64 * (b.toNat.testBit 6).toNat +
      32 * (b.toNat.testBit 5).toNat + 16 * (b.toNat.testBit 4).toNat + (b % 16).toNat) = b := by
  have h16 : (16 : UInt8).toNat = 16 := rfl
  have hb := b.toNat_lt
  rw [← UInt8.toNat_inj, UInt8.toNat_ofNat', UInt8.toNat_mod, h16]
  simp only [Nat.toNat_testBit]
  omega

/-- The form, the length and the bytes behind the seven bits that an announced length has. -/
theorem exists_form (short : Nat) (lengthBytes : Bytes) (hs : short < 128)
    (h : lengthBytes.length = FrameHeader.extraLengthBytes short) :
    ∃ (form : LengthForm) (n : Nat), n < form.limit ∧ form.marker n = short ∧
      Bytes.ofNat form.width n = lengthBytes := by
  unfold FrameHeader.extraLengthBytes at h
  have hlt := Bytes.toNat_lt lengthBytes
  by_cases h126 : short = 126
  · rw [if_pos h126] at h
    rw [h] at hlt
    exact ⟨.medium, _, hlt, h126.symm, Bytes.ofNat_toNat_of_length h⟩
  · rw [if_neg h126] at h
    by_cases h127 : short = 127
    · rw [if_pos h127] at h
      rw [h] at hlt
      exact ⟨.long, _, hlt, h127.symm, Bytes.ofNat_toNat_of_length h⟩
    · rw [if_neg h127] at h
      have hshort : short < 126 := by omega
      exact ⟨.short, short, hshort, rfl, (List.length_eq_zero_iff.1 h).symm⟩

/-- Two bytes, and behind them as many as they ask for, are a header. -/
theorem exists_bytes_cons (b0 b1 : UInt8) (more : Bytes)
    (h : more.length = FrameHeader.extraLengthBytes (b1.toNat % 128) +
      if 128 ≤ b1.toNat then 4 else 0) :
    ∃ w : WireHeader, w.bytes = b0 :: b1 :: more := by
  obtain ⟨form, n, hn, hmarker, hwidth⟩ := exists_form (b1.toNat % 128)
    (more.take (FrameHeader.extraLengthBytes (b1.toNat % 128))) (by omega)
    (List.length_take_of_le (by omega))
  -- The bytes behind the length are the key, if the mask bit asks for one.
  obtain ⟨key, hkey, hmask⟩ : ∃ key : Option MaskKey,
      (key.map Subtype.val).getD [] =
        more.drop (FrameHeader.extraLengthBytes (b1.toNat % 128)) ∧
      128 * key.isSome.toNat + b1.toNat % 128 = b1.toNat := by
    by_cases hm : 128 ≤ b1.toNat
    · have hb := b1.toNat_lt
      rw [if_pos hm] at h
      refine ⟨some ⟨more.drop _, ?_⟩, rfl, ?_⟩
      · rw [List.length_drop, h]
        omega
      · show 128 * 1 + b1.toNat % 128 = b1.toNat
        omega
    · rw [if_neg hm] at h
      refine ⟨none, ?_, ?_⟩
      · exact (List.drop_eq_nil_of_le (by omega)).symm
      · show 128 * 0 + b1.toNat % 128 = b1.toNat
        omega
  have hopcode : (b0 % 16).toNat < 16 := by
    rw [UInt8.toNat_mod]
    exact Nat.mod_lt _ (by decide)
  refine ⟨⟨b0.toNat.testBit 7, b0.toNat.testBit 6, b0.toNat.testBit 5, b0.toNat.testBit 4, b0 % 16,
    hopcode, form, n, hn, key⟩, ?_⟩
  simp only [bytes, firstByte, secondByte, fields, keyBytes, ofNat_flags, hmarker, hwidth, hkey,
    hmask, UInt8.ofNat_toNat, List.take_append_drop]

/-- Two bytes that ask for more than there is are no header. -/
theorem read_cons_of_lt {b0 b1 : UInt8} {rest : Bytes}
    (h : rest.length < FrameHeader.extraLengthBytes (b1.toNat % 128) +
      if 128 ≤ b1.toNat then 4 else 0) :
    FrameHeader.read (b0 :: b1 :: rest) = .incomplete := by
  simp only [FrameHeader.read, List.take_of_length_le (Nat.le_of_lt h), h, if_true]

/-- Where a header can be read, or is refused, a header stands. -/
theorem exists_bytes_of_read {raw : Bytes} (h : FrameHeader.read raw ≠ .incomplete) :
    ∃ (w : WireHeader) (rest : Bytes), raw = w.bytes ++ rest := by
  match raw, h with
  | [], h => exact absurd rfl h
  | [_], h => exact absurd rfl h
  | b0 :: b1 :: rest, h =>
    have hlen := Nat.not_lt.1 fun hlt => h (read_cons_of_lt hlt)
    obtain ⟨w, hw⟩ := exists_bytes_cons b0 b1 (rest.take _) (List.length_take_of_le hlen)
    exact ⟨w, rest.drop _, by rw [hw, List.cons_append, List.cons_append, List.take_append_drop]⟩

/-- More bytes do not change what is read. -/
theorem read_append {raw : Bytes} (h : FrameHeader.read raw ≠ .incomplete) (more : Bytes) :
    FrameHeader.read (raw ++ more) = FrameHeader.read raw := by
  obtain ⟨w, rest, rfl⟩ := exists_bytes_of_read h
  rw [List.append_assoc, read_bytes, read_bytes]

/-! ### Headers and their bytes determine each other -/

/-- The seven bits tell the form. -/
theorem form_eq_of_marker {f g : LengthForm} {m n : Nat} (hm : m < f.limit) (hn : n < g.limit)
    (h : f.marker m = g.marker n) : f = g := by
  have hshort : ∀ k, k < LengthForm.short.limit → k < 126 := fun _ hk => hk
  cases f <;> cases g <;> simp only [LengthForm.marker] at h
  case short.short => rfl
  case medium.medium => rfl
  case long.long => rfl
  case short.medium => have := hshort m hm; omega
  case short.long => have := hshort m hm; omega
  case medium.short => have := hshort n hn; omega
  case long.short => have := hshort n hn; omega
  case medium.long => cases h
  case long.medium => cases h

/-- The length that is written in a form is told by its bytes and the seven bits. -/
theorem eq_of_ofNat_width {f : LengthForm} {m n : Nat} (hm : m < f.limit) (hn : n < f.limit)
    (hmarker : f.marker m = f.marker n) (h : Bytes.ofNat f.width m = Bytes.ofNat f.width n) :
    m = n := by
  rw [← LengthForm.toNat_ofNat_width hm, ← LengthForm.toNat_ofNat_width hn, hmarker, h]

/-- No header is the beginning of another one. -/
theorem bytes_append_inj {v w : WireHeader} {xs ys : Bytes}
    (h : v.bytes ++ xs = w.bytes ++ ys) : v = w ∧ xs = ys := by
  simp only [bytes, List.cons_append, List.cons.injEq] at h
  obtain ⟨hfirst, hsecond, hfields⟩ := h
  obtain ⟨hv1, hv2, hv3, hv4, hv5⟩ := v.flags_firstByte
  obtain ⟨hw1, hw2, hw3, hw4, hw5⟩ := w.flags_firstByte
  rw [hfirst] at hv1 hv2 hv3 hv4 hv5
  obtain ⟨hvm, hvs⟩ := v.parts_secondByte
  obtain ⟨hwm, hws⟩ := w.parts_secondByte
  rw [hsecond] at hvm hvs
  -- The second bytes agree, so the forms do and there are keys in both headers or in none.
  have hmarker := hvs.symm.trans hws
  have hmask : v.key.isSome = w.key.isSome := Bool.eq_iff_iff.2 (hvm.symm.trans hwm)
  have hform := form_eq_of_marker v.payloadLength_lt w.payloadLength_lt hmarker
  obtain ⟨_, _, _, _, _, _, _, m, hm, key⟩ := v
  obtain ⟨_, _, _, _, _, _, g, n, hn, key'⟩ := w
  simp only at hv1 hv2 hv3 hv4 hv5 hw1 hw2 hw3 hw4 hw5 hmarker hmask hform
  subst hform
  -- The fields are now cut at the same places.
  simp only [fields, List.append_assoc] at hfields
  obtain ⟨hlength, hrest⟩ := List.append_inj hfields (by simp)
  have hmn := eq_of_ofNat_width hm hn hmarker hlength
  obtain ⟨hkey, htail⟩ := List.append_inj hrest
    (by rw [length_keyBytes, length_keyBytes]; simp only [hmask])
  have hkeys : key = key' := by
    cases key <;> cases key' <;> simp only [Option.isSome_none, Option.isSome_some] at hmask
    · rfl
    · cases hmask
    · cases hmask
    · exact congrArg some (Subtype.ext hkey)
  simp only [mk.injEq]
  exact ⟨⟨hv1.symm.trans hw1, hv2.symm.trans hw2, hv3.symm.trans hw3, hv4.symm.trans hw4,
    hv5.symm.trans hw5, trivial, hmn, hkeys⟩, htail⟩

end WireHeader

end Switchyard
