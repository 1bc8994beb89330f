import Mathlib.Algebra.GroupWithZero.Nat
import Switchyard.Proofs.WebSocket.Rewriting

/-!
# Headers place by place

`FrameHeader.read` takes a header off the front of a list, where nothing can be out of bounds.
`FrameHeader.readAt?` reads it as it stands in a buffer: each byte at its place, and the length in 64
bits. It has no result where a byte is not there, or a bit of the length is lost; that does not happen,
and both read the same (`readAt?_eq`). So a header is read as soon as it is whole, and what was written
is what is read (`reads_when_whole`).
-/

namespace Switchyard.FrameHeader

/-! ### Reading at a place -/

/-- The bytes between two places of a buffer. -/
def slice? (bs : Bytes) (start stop : Nat) : Option Bytes :=
  if start ≤ stop ∧ stop ≤ bs.length then some ((bs.take stop).drop start) else none

/-- A number of 64 bits with one more byte behind it, if no bit of it is lost. -/
def shiftIn? (n : UInt64) (b : UInt8) : Option UInt64 :=
  if n.toNat < 2 ^ 56 then some (n <<< 8 ||| b.toUInt64) else none

/-- How many bytes a header has, by its second one. -/
def announced (b1 : UInt8) : Nat :=
  2 + extraLengthBytes (b1.toNat % 128) + if 128 ≤ b1.toNat then 4 else 0

/-- The length of the payload, by the second byte and those behind it. -/
def payloadLengthAt? (bs : Bytes) (b1 : UInt8) : Option UInt64 :=
  let lengthBytes := extraLengthBytes (b1.toNat % 128)
  if lengthBytes = 0 then some (b1 % 128).toUInt64
  else (slice? bs 2 (2 + lengthBytes)).bind fun field => field.foldlM shiftIn? 0

/-- The key, if the second byte announces one. -/
def keyAt? (bs : Bytes) (b1 : UInt8) : Option (Option Bytes) :=
  let place := 2 + extraLengthBytes (b1.toNat % 128)
  if 128 ≤ b1.toNat then do
    return some [← bs[place]?, ← bs[place + 1]?, ← bs[place + 2]?, ← bs[place + 3]?]
  else some none

/-- Reads a header place by place. -/
def readAt? (bs : Bytes) : Option HeaderRead :=
  if bs.length < 2 then some .incomplete
  else bs[1]?.bind fun b1 =>
    if bs.length < announced b1 then some .incomplete
    else (payloadLengthAt? bs b1).bind fun payloadLength =>
      if maxMessage < payloadLength.toNat then some .tooLarge
      else do
        let key ← keyAt? bs b1
        let b0 ← bs[0]?
        return .header {
          final := b0.toNat.testBit 7
          rsv1 := b0.toNat.testBit 6
          rsv2 := b0.toNat.testBit 5
          rsv3 := b0.toNat.testBit 4
          opcode := b0 % 16
          key
          length := announced b1
          payloadLength := payloadLength.toNat }

theorem extraLengthBytes_le (short : Nat) : extraLengthBytes short ≤ 8 := by
  unfold extraLengthBytes
  split
  · decide
  · split <;> decide

theorem announced_bounds (b1 : UInt8) : 2 ≤ announced b1 ∧ announced b1 ≤ 14 := by
  have hle := extraLengthBytes_le (b1.toNat % 128)
  unfold announced
  split <;> omega

/-! ### Nothing is out of bounds -/

theorem toNat_shiftIn {n : UInt64} (b : UInt8) (h : n.toNat < 2 ^ 56) :
    (n <<< 8 ||| b.toUInt64).toNat = 256 * n.toNat + b.toNat := by
  have hb := b.toNat_lt
  have hshift : (n <<< 8).toNat = 2 ^ 8 * n.toNat := by
    have h8 : (8 : UInt64).toNat % 64 = 8 := rfl
    rw [UInt64.toNat_shiftLeft, h8, Nat.shiftLeft_eq]
    omega
  rw [UInt64.toNat_or, hshift, UInt8.toNat_toUInt64, ← Nat.two_pow_add_eq_or_of_lt hb]

/-- No bit of a number is lost that has at most eight bytes in all. -/
theorem foldlM_shiftIn {bs : Bytes} {n : UInt64} (hlength : bs.length ≤ 8)
    (hn : n.toNat < 256 ^ (8 - bs.length)) :
    ∃ m, bs.foldlM shiftIn? n = some m ∧
      m.toNat = bs.foldl (fun n b => 256 * n + b.toNat) n.toNat := by
  induction bs generalizing n with
  | nil => exact ⟨n, rfl, rfl⟩
  | cons b bs ih =>
    rw [List.length_cons] at hlength hn
    have hb := b.toNat_lt
    have hsmall : n.toNat < 2 ^ 56 :=
      calc n.toNat < 256 ^ (8 - (bs.length + 1)) := hn
        _ ≤ 256 ^ 7 := Nat.pow_le_pow_right (by decide) (by omega)
    have hnext : (n <<< 8 ||| b.toUInt64).toNat < 256 ^ (8 - bs.length) := by
      have hpow : 256 ^ (8 - bs.length) = 256 ^ (8 - (bs.length + 1)) * 256 := by
        rw [← Nat.pow_succ]
        congr 1
        omega
      rw [toNat_shiftIn b hsmall, hpow]
      omega
    obtain ⟨m, hm, hvalue⟩ := ih (by omega) hnext
    refine ⟨m, ?_, ?_⟩
    · rw [List.foldlM_cons, shiftIn?, if_pos hsmall]
      exact hm
    · rw [hvalue, toNat_shiftIn b hsmall, List.foldl_cons]

theorem slice?_eq {bs : Bytes} {start stop : Nat} (h : start ≤ stop) (h' : stop ≤ bs.length) :
    slice? bs start stop = some ((bs.take stop).drop start) :=
  if_pos ⟨h, h'⟩

variable {b0 b1 : UInt8} {rest : Bytes}

/-- The length is there, and has no more than 64 bits. -/
theorem payloadLengthAt?_eq (b0 : UInt8)
    (h : extraLengthBytes (b1.toNat % 128) ≤ rest.length) :
    ∃ n, payloadLengthAt? (b0 :: b1 :: rest) b1 = some n ∧
      n.toNat = if extraLengthBytes (b1.toNat % 128) = 0 then b1.toNat % 128
        else Bytes.toNat (rest.take (extraLengthBytes (b1.toNat % 128))) := by
  unfold payloadLengthAt?
  dsimp only
  split
  · refine ⟨_, rfl, ?_⟩
    rw [UInt8.toNat_toUInt64, UInt8.toNat_mod]
    rfl
  · have hslice : slice? (b0 :: b1 :: rest) 2 (2 + extraLengthBytes (b1.toNat % 128)) =
        some (rest.take (extraLengthBytes (b1.toNat % 128))) := by
      rw [slice?_eq (Nat.le_add_right _ _) (by simp only [List.length_cons]; omega), Nat.add_comm]
      rfl
    have hle := extraLengthBytes_le (b1.toNat % 128)
    have htake : (rest.take (extraLengthBytes (b1.toNat % 128))).length ≤ 8 := by
      rw [List.length_take]
      omega
    obtain ⟨n, hn, hvalue⟩ := foldlM_shiftIn (n := 0) htake (Nat.pow_pos (by decide))
    refine ⟨n, ?_, hvalue⟩
    rw [hslice]
    exact hn

/-- Four bytes from a place on are those at the four places. -/
theorem drop_take_four (bs : Bytes) (k : Nat) (h : k + 4 ≤ bs.length) :
    (bs.take (k + 4)).drop k = [bs[k], bs[k + 1], bs[k + 2], bs[k + 3]] := by
  refine List.ext_getElem (by simp only [List.length_drop, List.length_take]; simp; omega) ?_
  intro i hi hi'
  rw [List.getElem_drop, List.getElem_take]
  have hfour : i < 4 := hi'
  match i, hfour with
  | 0, _ | 1, _ | 2, _ | 3, _ => rfl

/-- So is the key. -/
theorem keyAt?_eq (b0 : UInt8) (h : announced b1 ≤ rest.length + 2) :
    keyAt? (b0 :: b1 :: rest) b1 =
      some (if 128 ≤ b1.toNat then
        some ((rest.take (extraLengthBytes (b1.toNat % 128) + if 128 ≤ b1.toNat then 4 else 0)).drop
          (extraLengthBytes (b1.toNat % 128))) else none) := by
  unfold keyAt?
  dsimp only
  split
  · next hmask =>
    rw [announced, if_pos hmask] at h
    generalize extraLengthBytes (b1.toNat % 128) = k at h
    have hplace : ∀ i, i < 4 → (b0 :: b1 :: rest)[2 + k + i]? = some (rest[k + i]?.getD 0) := by
      intro i hi
      have hindex : 2 + k + i = k + i + 1 + 1 := by omega
      rw [hindex, List.getElem?_cons_succ, List.getElem?_cons_succ,
        List.getElem?_eq_getElem (by omega), Option.getD_some]
    have h0 := hplace 0 (by decide)
    rw [Nat.add_zero, Nat.add_zero] at h0
    rw [h0, hplace 1 (by decide), hplace 2 (by decide), hplace 3 (by decide),
      drop_take_four rest k (by omega)]
    simp only [List.getElem?_eq_getElem (show k < rest.length by omega),
      List.getElem?_eq_getElem (show k + 1 < rest.length by omega),
      List.getElem?_eq_getElem (show k + 2 < rest.length by omega),
      List.getElem?_eq_getElem (show k + 3 < rest.length by omega)]
    rfl
  · rfl

/-- **A header is read without looking past the end, and without losing a bit of its length.** -/
theorem readAt?_eq (bs : Bytes) : readAt? bs = some (read bs) := by
  match bs with
  | [] => rfl
  | [_] => rfl
  | b0 :: b1 :: rest =>
    have htwo : ¬ (b0 :: b1 :: rest).length < 2 := by simp only [List.length_cons]; omega
    rw [readAt?, if_neg htwo]
    by_cases hshort : (b0 :: b1 :: rest).length < announced b1
    · have hread : read (b0 :: b1 :: rest) = .incomplete := by
        refine WireHeader.read_cons_of_lt ?_
        simp only [List.length_cons, announced] at hshort
        omega
      rw [hread]
      exact if_pos hshort
    · have hlength : announced b1 ≤ rest.length + 2 := Nat.not_lt.1 hshort
      have hlengthBytes : extraLengthBytes (b1.toNat % 128) ≤ rest.length := by
        unfold announced at hlength
        omega
      obtain ⟨n, hn, hvalue⟩ := payloadLengthAt?_eq b0 hlengthBytes
      have hfields : (rest.take (extraLengthBytes (b1.toNat % 128) +
          if 128 ≤ b1.toNat then 4 else 0)).length =
          extraLengthBytes (b1.toNat % 128) + if 128 ≤ b1.toNat then 4 else 0 :=
        List.length_take_of_le (by unfold announced at hlength; omega)
      have htake : (rest.take (extraLengthBytes (b1.toNat % 128) +
          if 128 ≤ b1.toNat then 4 else 0)).take (extraLengthBytes (b1.toNat % 128)) =
          rest.take (extraLengthBytes (b1.toNat % 128)) := by
        rw [List.take_take, Nat.min_eq_left (Nat.le_add_right _ _)]
      have hkey := keyAt?_eq b0 hlength
      simp only [List.getElem?_cons_succ, List.getElem?_cons_zero, Option.bind_some, if_neg hshort,
        hn, hkey, Option.bind_eq_bind, hvalue, read, hfields, htake, Nat.lt_irrefl, if_false]
      exact (apply_ite some _ _ _).symm

/-! ### Reading what was written -/

/-- The header that `maskedFrame` writes. -/
def ofMessage (opcode : UInt8) (payload : Bytes) : FrameHeader where
  final := true
  rsv1 := false
  rsv2 := false
  rsv3 := false
  opcode
  key := some [0, 0, 0, 0]
  length := 2 + (LengthForm.shortest payload.length).width + 4
  payloadLength := payload.length

variable {opcode : UInt8} {payload : Bytes}

theorem header_of_isWhole {f : WireFrame} (h : f.IsWhole opcode payload) :
    f.header = ofMessage opcode payload := by
  have hlength : f.payloadLength = payload.length := by rw [← f.length_payload, h.payload_eq]
  have hkey : f.keyBytes.length = 4 := by rw [WireHeader.length_keyBytes, h.key]; rfl
  simp only [WireHeader.header, ofMessage, h.final, h.rsv1, h.rsv2, h.rsv3, h.opcode_eq, h.key,
    h.form, hkey, hlength]
  rfl

/-- A message that is written is read back, header and payload. -/
theorem read_maskedFrame (hopcode : opcode.toNat < 16) (hlength : payload.length ≤ maxMessage)
    (rest : Bytes) :
    read (maskedFrame opcode payload ++ rest) = .header (ofMessage opcode payload) ∧
      (ofMessage opcode payload).total = (maskedFrame opcode payload).length ∧
      unmask (ofMessage opcode payload).key
        ((maskedFrame opcode payload).drop (ofMessage opcode payload).length) = payload := by
  obtain ⟨f, hf⟩ := WireFrame.exists_isWhole hopcode
    (Nat.lt_of_le_of_lt hlength (show maxMessage < Nat.pow 256 8 by decide))
  have hshort : f.payloadLength ≤ maxMessage := by
    rw [← f.length_payload, hf.payload_eq]
    exact hlength
  rw [← hf.bytes_eq, ← header_of_isWhole hf]
  exact ⟨f.read_bytes hshort rest, f.length_bytes.symm, f.unmask_drop_bytes.trans hf.payload_eq⟩

theorem width_shortest_le (n : Nat) {other : LengthForm} (h : n < other.limit) :
    (LengthForm.shortest n).width ≤ other.width := by
  cases other with
  | short =>
    have hshortest : LengthForm.shortest n = .short := if_pos h
    exact Nat.le_of_eq (congrArg LengthForm.width hshortest)
  | medium =>
    have hn : n < 65536 := h
    unfold LengthForm.shortest
    split
    · exact Nat.zero_le _
    · exact Nat.le_refl _
  | long =>
    unfold LengthForm.shortest
    split
    · exact Nat.zero_le _
    · split
      · decide
      · exact Nat.le_refl _

/-! ### Waiting for the rest of a header -/

theorem read_bytes_ne_incomplete (w : WireHeader) (rest : Bytes) :
    read (w.bytes ++ rest) ≠ .incomplete := by
  rw [WireHeader.read_bytes]
  split <;> nofun

/-- A header is incomplete as long as there are fewer bytes than its second one announces. -/
theorem read_eq_incomplete_iff (bs : Bytes) :
    read bs = .incomplete ↔ ∀ b1 ∈ bs[1]?, bs.length < announced b1 := by
  match bs with
  | [] => exact iff_of_true rfl nofun
  | [_] => exact iff_of_true rfl nofun
  | b0 :: b1 :: rest =>
    have hsecond : (∀ b ∈ (b0 :: b1 :: rest)[1]?, (b0 :: b1 :: rest).length < announced b) ↔
        rest.length + 2 < announced b1 := by
      simp
    rw [hsecond]
    constructor
    · intro h
      refine Nat.not_le.1 fun hle => ?_
      obtain ⟨w, hw⟩ := WireHeader.exists_bytes_cons b0 b1 (rest.take (announced b1 - 2)) (by
        rw [List.length_take, announced] at *
        omega)
      have hread := read_bytes_ne_incomplete w (rest.drop (announced b1 - 2))
      rw [hw, List.cons_append, List.cons_append, List.take_append_drop] at hread
      exact hread h
    · intro h
      refine WireHeader.read_cons_of_lt ?_
      rw [announced] at h
      omega

/-- Every byte string that does not begin with a header begins one. -/
theorem exists_header_of_incomplete {bs : Bytes} (h : read bs = .incomplete) :
    ∃ (w : WireHeader) (more : Bytes), more ≠ [] ∧ bs ++ more = w.bytes := by
  match bs with
  | [] =>
    obtain ⟨w, hw⟩ := WireHeader.exists_bytes_cons 0 0 [] rfl
    exact ⟨w, [0, 0], nofun, hw.symm⟩
  | [b0] =>
    obtain ⟨w, hw⟩ := WireHeader.exists_bytes_cons b0 0 [] rfl
    exact ⟨w, [0], nofun, hw.symm⟩
  | b0 :: b1 :: rest =>
    have hlt : rest.length + 2 < announced b1 := (read_eq_incomplete_iff _).1 h b1 rfl
    obtain ⟨w, hw⟩ := WireHeader.exists_bytes_cons b0 b1
      (rest ++ List.replicate (announced b1 - 2 - rest.length) 0) (by
        rw [List.length_append, List.length_replicate, announced] at *
        omega)
    refine ⟨w, List.replicate (announced b1 - 2 - rest.length) 0, ?_, hw.symm⟩
    rw [← List.length_pos_iff, List.length_replicate]
    omega

/-- What stands at the front of a byte string, said of the headers that senders write. -/
inductive Stands (bs : Bytes) : HeaderRead → Prop where
  /-- A part of a header, and nothing else. -/
  | incomplete (w : WireHeader) (more : Bytes) (hne : more ≠ []) (h : bs ++ more = w.bytes) :
      Stands bs .incomplete
  | tooLarge (w : WireHeader) (rest : Bytes) (h : bs = w.bytes ++ rest)
      (hmax : maxMessage < w.payloadLength) : Stands bs .tooLarge
  | header (w : WireHeader) (rest : Bytes) (h : bs = w.bytes ++ rest)
      (hmax : w.payloadLength ≤ maxMessage) : Stands bs (.header w.header)

theorem stands_read (bs : Bytes) : Stands bs (read bs) := by
  by_cases hincomplete : read bs = .incomplete
  · obtain ⟨w, more, hne, h⟩ := exists_header_of_incomplete hincomplete
    rw [hincomplete]
    exact .incomplete w more hne h
  · obtain ⟨w, rest, rfl⟩ := WireHeader.exists_bytes_of_read hincomplete
    rw [WireHeader.read_bytes]
    split
    · next hmax => exact .tooLarge w rest rfl hmax
    · next hmax => exact .header w rest rfl (Nat.not_lt.1 hmax)

/-- There is no second way to read a byte string. -/
theorem Stands.eq_read {bs : Bytes} {r : HeaderRead} (h : Stands bs r) : r = read bs := by
  cases h with
  | incomplete w more hne h =>
    refine (Decidable.byContradiction fun hread => ?_ : read bs = .incomplete).symm
    obtain ⟨v, rest, rfl⟩ := WireHeader.exists_bytes_of_read hread
    rw [List.append_assoc, ← List.append_nil w.bytes] at h
    obtain ⟨-, hnil⟩ := WireHeader.bytes_append_inj h
    exact hne (List.append_eq_nil_iff.1 hnil).2
  | tooLarge w rest h hmax => rw [h, WireHeader.read_bytes, if_pos hmax]
  | header w rest h hmax => rw [h, WireHeader.read_bytes, if_neg (Nat.not_lt.2 hmax)]

/-- **Headers are read when they are whole, and not before.** A message that is written as a frame is
read back, whatever follows it. Of any byte string it is known what stands at its front: a header, a
header that announces too much, or a part of one; the last is said exactly while there are fewer bytes
than the second one announces, and what else is said does not change with more bytes. -/
theorem reads_when_whole :
    (∀ (opcode : UInt8) (payload rest : Bytes), opcode.toNat < 16 → payload.length ≤ maxMessage →
      read (maskedFrame opcode payload ++ rest) = .header (ofMessage opcode payload) ∧
        (ofMessage opcode payload).total = (maskedFrame opcode payload).length ∧
        unmask (ofMessage opcode payload).key
          ((maskedFrame opcode payload).drop (ofMessage opcode payload).length) = payload ∧
        ∀ form : LengthForm, payload.length < form.limit →
          (ofMessage opcode payload).length ≤ 2 + form.width + 4) ∧
    ∀ bs : Bytes,
      (∀ r, r = read bs ↔ Stands bs r) ∧
        (read bs = .incomplete ↔ ∀ b1 ∈ bs[1]?, bs.length < announced b1) ∧
        (∀ b1 : UInt8, 2 ≤ announced b1 ∧ announced b1 ≤ 14) ∧
        (read bs ≠ .incomplete → ∀ more, read (bs ++ more) = read bs) ∧
        readAt? bs = some (read bs) ∧
        ∀ h, read bs = .header h → h.total ≤ 14 + maxMessage := by
  refine ⟨fun opcode payload rest hopcode hlength => ?_, fun bs => ?_⟩
  · obtain ⟨hread, htotal, hpayload⟩ := read_maskedFrame hopcode hlength rest
    refine ⟨hread, htotal, hpayload, fun form hform => ?_⟩
    have hwidth := width_shortest_le _ hform
    show 2 + _ + 4 ≤ _
    omega
  · refine ⟨fun r => ⟨fun h => h ▸ stands_read bs, Stands.eq_read⟩, read_eq_incomplete_iff bs,
      announced_bounds, fun hne => WireHeader.read_append hne, readAt?_eq bs, fun h hread => ?_⟩
    have hstands := stands_read bs
    rw [hread] at hstands
    cases hstands with
    | header w rest _ hmax =>
      have hwidth : w.form.width ≤ 8 := by cases w.form <;> decide
      have hkey : w.keyBytes.length ≤ 4 := by rw [WireHeader.length_keyBytes]; split <;> decide
      have hpayload : w.payloadLength ≤ maxMessage := hmax
      show 2 + w.form.width + w.keyBytes.length + w.payloadLength ≤ 14 + maxMessage
      omega

/-- A binary message with four bytes behind it. -/
theorem reads_when_whole_of_greeting :
    let frame := maskedFrame Opcode.binary [0x68, 0x69]
    read (frame ++ [1, 2, 3, 4]) = .header (ofMessage Opcode.binary [0x68, 0x69]) ∧
      frame.length = 8 ∧ read (frame.take 5) = .incomplete := by
  obtain ⟨hmessages, hall⟩ := reads_when_whole
  obtain ⟨hread, htotal, -⟩ :=
    hmessages Opcode.binary [0x68, 0x69] [1, 2, 3, 4] (by decide) (by decide)
  have hpart := (hall ((maskedFrame Opcode.binary [0x68, 0x69]).take 5)).2.1.2 (by decide +kernel)
  exact ⟨hread, htotal.symm, hpart⟩

end Switchyard.FrameHeader
