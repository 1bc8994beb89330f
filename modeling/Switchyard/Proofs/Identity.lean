import Mathlib.Tactic.IntervalCases
import Switchyard.Identity

/-!
# Passwords as bytes

A password is made of lowercase hexadecimal digits, so it has as many bytes as characters and none of
them is zero: no message that begins with a password is of VLESS version zero.
-/

namespace Switchyard

/-- The byte of a lowercase hexadecimal digit. -/
def Hex.IsDigit (b : UInt8) : Prop :=
  0x30 ≤ b ∧ b ≤ 0x39 ∨ 0x61 ≤ b ∧ b ≤ 0x66

theorem Hex.encode_digitChar {n : Nat} (h : n < 16) :
    ∃ b, String.utf8EncodeChar (Nat.digitChar n) = [b] ∧ Hex.IsDigit b := by
  unfold Hex.IsDigit
  interval_cases n <;> exact ⟨_, rfl, by decide⟩

/-- Two digits for each byte. -/
theorem Hex.ofText_encode (bs : Bytes) :
    (Bytes.ofText (Hex.encode bs)).length = 2 * bs.length ∧
      ∀ b ∈ Bytes.ofText (Hex.encode bs), Hex.IsDigit b := by
  induction bs with
  | nil => exact ⟨rfl, nofun⟩
  | cons x bs ih =>
    obtain ⟨hl, hd⟩ := ih
    have hx := x.toNat_lt
    obtain ⟨hi, hhi, hdhi⟩ := Hex.encode_digitChar (n := x.toNat / 16) (by omega)
    obtain ⟨lo, hlo, hdlo⟩ := Hex.encode_digitChar (n := x.toNat % 16) (by omega)
    have he : Bytes.ofText (Hex.encode (x :: bs)) = hi :: lo :: Bytes.ofText (Hex.encode bs) := by
      simp only [Bytes.ofText, Hex.encode, Hex.ofByte, List.flatMap_cons,
        List.cons_append, List.nil_append, hhi, hlo]
    rw [he]
    constructor
    · rw [List.length_cons, List.length_cons, List.length_cons, hl]
      omega
    · intro b hb
      rcases List.mem_cons.1 hb with rfl | hb
      · exact hdhi
      rcases List.mem_cons.1 hb with rfl | hb
      · exact hdlo
      · exact hd b hb

namespace Identity

variable (id : Identity)

theorem length_ofText_password : (Bytes.ofText id.password).length = passwordLength := by
  rw [password, (Hex.ofText_encode _).1, Sha224.length_digest]
  rfl

theorem isDigit_of_mem_password {b : UInt8} (h : b ∈ Bytes.ofText id.password) : Hex.IsDigit b :=
  (Hex.ofText_encode _).2 b h

/-- What begins with the password does not begin with a zero byte. -/
theorem head?_password_append (rest : Bytes) :
    (Bytes.ofText id.password ++ rest).head? ≠ some 0 := by
  have hl := id.length_ofText_password
  match hp : Bytes.ofText id.password, hl with
  | b :: bs, _ =>
    intro h
    obtain rfl := Option.some.inj h
    have hd : Hex.IsDigit 0 := id.isDigit_of_mem_password (hp ▸ List.mem_cons_self)
    revert hd
    unfold Hex.IsDigit
    decide

end Identity

end Switchyard
