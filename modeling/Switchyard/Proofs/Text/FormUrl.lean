import Mathlib.Tactic.IntervalCases
import Switchyard.Proofs.Text.Utf8
import Switchyard.Text.FormUrl

/-!
# Form encoding both ways

Each byte is written in one of three forms, and `decode?` finds out which from the first character:
`decode?_encodeByte`. So what `encode` writes is read back (`decode?_encode`), and no two texts are
written alike (`encode_ofText_inj`). Whatever is written, it has none of the characters that divide a
URL or a text (`isFormChar_of_mem_encode`).
-/

namespace Switchyard.FormUrl

/-! ### Digits -/

theorem value?_upperDigit {n : Nat} (h : n < 16) : Hex.value? (upperDigit n) = some n := by
  interval_cases n <;> rfl

theorem byte?_upperDigit (b : UInt8) :
    Hex.byte? (upperDigit (b.toNat / 16)) (upperDigit (b.toNat % 16)) = some b := by
  have hb := b.toNat_lt
  have hvalue : 16 * (b.toNat / 16) + b.toNat % 16 = b.toNat := by omega
  rw [Hex.byte?, value?_upperDigit (by omega), value?_upperDigit (by omega)]
  show some (UInt8.ofNat _) = some b
  rw [hvalue, UInt8.ofNat_toNat]

/-! ### Byte by byte -/

/-- A character that cannot be taken for one with a meaning of its own. -/
theorem toNat_of_isPlain {b : UInt8} (h : isPlain b = true) :
    b.toNat < 128 ∧ b.toNat ≠ '%'.toNat ∧ b.toNat ≠ '+'.toNat := by
  simp only [isPlain, Bool.or_eq_true, Bool.and_eq_true, decide_eq_true_eq, beq_iff_eq,
    UInt8.le_iff_toNat_le, ← UInt8.toNat_inj, UInt8.reduceToNat, Char.reduceToNat] at h ⊢
  omega

theorem decode?_of_ne {c : Char} (h : c ≠ '%') (rest : List Char) :
    decode? (c :: rest) =
      if c = '+' then (decode? rest).map (0x20 :: ·)
      else if c.toNat < 128 then (decode? rest).map (UInt8.ofNat c.toNat :: ·)
      else none := by
  rw [decode?]
  · simp only [ne_eq, h, not_false_eq_true, true_and]
  · rintro _ _ _ rfl
    exact absurd rfl h

/-- The byte at the front is read as it was written. -/
theorem decode?_encodeByte (b : UInt8) (rest : List Char) :
    decode? (encodeByte b ++ rest) = (decode? rest).map (b :: ·) := by
  unfold encodeByte
  split
  · next hplain =>
    obtain ⟨hlt, hpercent, hplus⟩ := toNat_of_isPlain hplain
    have hchar : (Char.ofNat b.toNat).toNat = b.toNat :=
      Utf8.val_ofNat (.inl (by omega))
    have hne (c : Char) (hc : b.toNat ≠ c.toNat) : Char.ofNat b.toNat ≠ c := by
      rintro rfl
      exact hc hchar.symm
    rw [List.singleton_append, decode?_of_ne (hne _ hpercent), if_neg (hne _ hplus), hchar,
      if_pos hlt, UInt8.ofNat_toNat]
  · split
    · next hspace =>
      rw [List.singleton_append, decode?_of_ne (by decide), if_pos rfl, hspace]
    · simp only [List.cons_append, List.nil_append, decode?, byte?_upperDigit]
      cases decode? rest <;> rfl

/-! ### Whole texts -/

/-- What was written is read back. -/
theorem decode?_encode (bs : Bytes) : decode? (encode bs) = some bs := by
  induction bs with
  | nil => rfl
  | cons b bs ih =>
    rw [encode, List.flatMap_cons, ← encode, decode?_encodeByte, ih]
    rfl

/-- The text that form data stands for; its bytes have to be UTF-8. -/
def decodeText? (cs : List Char) : Option (List Char) :=
  (decode? cs).bind Utf8.decode?

theorem decodeText?_encode (cs : List Char) : decodeText? (encode (Bytes.ofText cs)) = some cs := by
  rw [decodeText?, decode?_encode, Option.bind_some, Utf8.decode?_ofText]

/-- Texts are encoded alike only if they are the same. -/
theorem encode_ofText_inj {cs cs' : List Char} :
    encode (Bytes.ofText cs) = encode (Bytes.ofText cs') ↔ cs = cs' := by
  refine ⟨fun h => ?_, fun h => h ▸ rfl⟩
  have hread : some cs = some cs' := by rw [← decodeText?_encode cs, h, decodeText?_encode]
  exact Option.some.inj hread

/-! ### What is written -/

/-- An ASCII letter or digit, or one of the few other characters of form data. -/
def isFormChar (c : Char) : Bool :=
  c.isAlphanum || "*-._+%".toList.contains c

theorem all_isFormChar_encodeByte (b : UInt8) : (encodeByte b).all isFormChar = true := by
  have hall : ∀ n : Fin 256, (encodeByte (UInt8.ofNat n)).all isFormChar = true := by
    decide +kernel
  have hb := hall ⟨b.toNat, b.toNat_lt⟩
  rwa [UInt8.ofNat_toNat] at hb

theorem isFormChar_of_mem_encode {bs : Bytes} {c : Char} (h : c ∈ encode bs) :
    isFormChar c = true := by
  obtain ⟨b, -, hc⟩ := List.mem_flatMap.1 h
  exact List.all_eq_true.1 (all_isFormChar_encodeByte b) c hc

end Switchyard.FormUrl
