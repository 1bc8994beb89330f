import Mathlib.Data.List.GetD
import Switchyard.Text.Base64

/-!
# Base64 both ways

Groups of three bytes are written one after the other (`encode_group`), and the reader finds in each
the value that was written: what `encode` writes is read back (`decode?_encode`). It has no other
characters than the alphabet's and the padding.
-/

namespace Switchyard.Base64

theorem value?_char {n : Nat} (h : n < 64) : value? (char n) = some n :=
  have hall : ∀ n : Fin 64, value? (char n) = some n.val := by decide +kernel
  hall ⟨n, h⟩

theorem char_ne_padding {n : Nat} (h : n < 64) : char n ≠ '=' := by
  intro heq
  have hv := value?_char h
  rw [heq] at hv
  cases hv

theorem char_mem (n : Nat) : char n ∈ '=' :: alphabet := by
  unfold char
  by_cases h : n < alphabet.length
  · rw [List.getD_eq_getElem _ _ h]
    exact List.mem_cons_of_mem _ (List.getElem_mem h)
  · rw [List.getD_eq_default _ _ (Nat.le_of_not_lt h)]
    exact List.mem_cons_self

/-! ### Group by group -/

theorem encodeFrom_eq (acc : List Char) : ∀ bs, encodeFrom acc bs = acc.reverse ++ encode bs
  | [] => by simp [encode, encodeFrom]
  | [a] => by simp [encode, encodeFrom]
  | [a, b] => by simp [encode, encodeFrom]
  | a :: b :: c :: rest => by
    rw [encode, encodeFrom, encodeFrom, encodeFrom_eq _ rest, encodeFrom_eq _ rest]
    simp

/-- The number that three bytes write. -/
def groupOf (a b c : UInt8) : Nat :=
  (a.toNat * 256 + b.toNat) * 256 + c.toNat

theorem groupOf_lt (a b c : UInt8) : groupOf a b c < 64 * 64 * 64 * 64 := by
  have ha := a.toNat_lt
  have hb := b.toNat_lt
  have hc := c.toNat_lt
  unfold groupOf
  omega

theorem encode_group (a b c : UInt8) (rest : Bytes) :
    encode (a :: b :: c :: rest) =
      char (groupOf a b c / 262144) :: char (groupOf a b c / 4096 % 64) ::
        char (groupOf a b c / 64 % 64) :: char (groupOf a b c % 64) :: encode rest := by
  rw [encode, encodeFrom, encodeFrom_eq]
  rfl

theorem decodeFrom_group (acc : Bytes) {w x y z : Nat} (hw : w < 64) (hx : x < 64) (hy : y < 64)
    (hz : z < 64) (rest : List Char) :
    decodeFrom acc (char w :: char x :: char y :: char z :: rest) =
      let n := ((w * 64 + x) * 64 + y) * 64 + z
      decodeFrom (UInt8.ofNat n :: UInt8.ofNat (n / 256) :: UInt8.ofNat (n / 65536) :: acc)
        rest := by
  rw [decodeFrom]
  · simp [value?_char, hw, hx, hy, hz]
  · exact fun _ hpad _ => char_ne_padding hz hpad
  · exact fun hpad _ => char_ne_padding hz hpad

/-- The last byte of a number. -/
theorem ofNat_eq {n : Nat} {b : UInt8} (h : n % 256 = b.toNat) : UInt8.ofNat n = b := by
  rw [← UInt8.toNat_inj, UInt8.toNat_ofNat']
  exact h

theorem decodeFrom_encode (acc : Bytes) :
    ∀ bs, decodeFrom acc (encode bs) = some (acc.reverse ++ bs)
  | [] => by simp [encode, encodeFrom, decodeFrom]
  | [a] => by
    have ha := a.toNat_lt
    generalize hn : a.toNat * 16 = n
    have hw : n / 64 < 64 := by omega
    have hx : n % 64 < 64 := by omega
    have hgroup : n / 64 * 64 + n % 64 = n := by omega
    have hpad : n % 16 = 0 := by omega
    have hbyte : UInt8.ofNat (n / 16) = a := ofNat_eq (by omega)
    simp [encode, encodeFrom, decodeFrom, value?_char, hn, hw, hx, hgroup, hpad, hbyte]
  | [a, b] => by
    have ha := a.toNat_lt
    have hb := b.toNat_lt
    generalize hn : (a.toNat * 256 + b.toNat) * 4 = n
    have hw : n / 4096 < 64 := by omega
    have hx : n / 64 % 64 < 64 := by omega
    have hy : n % 64 < 64 := by omega
    have hne : char (n % 64) ≠ '=' := char_ne_padding hy
    have hgroup : (n / 4096 * 64 + n / 64 % 64) * 64 + n % 64 = n := by omega
    have hpad : n % 4 = 0 := by omega
    have ha' : UInt8.ofNat (n / 1024) = a := ofNat_eq (by omega)
    have hb' : UInt8.ofNat (n / 4) = b := ofNat_eq (by omega)
    simp [encode, encodeFrom, decodeFrom, value?_char, hn, hw, hx, hy, hgroup, hpad, ha', hb']
  | a :: b :: c :: rest => by
    have hlt := groupOf_lt a b c
    rw [encode_group, decodeFrom_group _ (by omega) (by omega) (by omega) (by omega)]
    -- The four values make up the number again, and its last three bytes are those written.
    have hgroup : ((groupOf a b c / 262144 * 64 + groupOf a b c / 4096 % 64) * 64 +
        groupOf a b c / 64 % 64) * 64 + groupOf a b c % 64 = groupOf a b c := by omega
    have ha := a.toNat_lt
    have hb := b.toNat_lt
    have hc := c.toNat_lt
    have ha' : UInt8.ofNat (groupOf a b c / 65536) = a := ofNat_eq (by unfold groupOf; omega)
    have hb' : UInt8.ofNat (groupOf a b c / 256) = b := ofNat_eq (by unfold groupOf; omega)
    have hc' : UInt8.ofNat (groupOf a b c) = c := ofNat_eq (by unfold groupOf; omega)
    dsimp only
    rw [hgroup, ha', hb', hc', decodeFrom_encode _ rest]
    simp

theorem decode?_encode (bs : Bytes) : decode? (encode bs) = some bs :=
  decodeFrom_encode [] bs

theorem forall_encode {P : Char → Prop} (hpad : P '=') (hchar : ∀ n, P (char n)) :
    ∀ bs, ∀ c ∈ encode bs, P c
  | [] => by simp [encode, encodeFrom]
  | [a] => by simp [encode, encodeFrom, hpad, hchar]
  | [a, b] => by simp [encode, encodeFrom, hpad, hchar]
  | a :: b :: c :: rest => by
    rw [encode_group]
    simpa [hchar] using forall_encode hpad hchar rest

/-- No other characters than the alphabet's and the padding. -/
theorem mem_of_mem_encode {bs : Bytes} {c : Char} (h : c ∈ encode bs) : c ∈ '=' :: alphabet :=
  forall_encode (P := (· ∈ '=' :: alphabet)) List.mem_cons_self char_mem bs c h

end Switchyard.Base64
