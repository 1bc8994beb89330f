import Mathlib.Data.List.Induction
import Switchyard.Bytes

/-!
# Numbers of a fixed width

Bytes and the number they write in base 256 determine each other once the width is known:
`Bytes.ofNat_toNat` is the other half of the round trip `Bytes.toNat_ofNat`.
-/

namespace Switchyard.Bytes

theorem toNat_lt (bs : Bytes) : toNat bs < Nat.pow 256 bs.length := by
  induction bs using List.reverseRecOn with
  | nil => exact Nat.one_pos
  | append_singleton bs b ih =>
    have hb := b.toNat_lt
    have hp : Nat.pow 256 (bs.length + 1) = Nat.pow 256 bs.length * 256 := rfl
    rw [toNat_concat, List.length_append, List.length_singleton, hp]
    omega

/-- Writing the number that `bs` writes gives `bs`. -/
theorem ofNat_toNat (bs : Bytes) : ofNat bs.length (toNat bs) = bs := by
  induction bs using List.reverseRecOn with
  | nil => rfl
  | append_singleton bs b ih =>
    have hb := b.toNat_lt
    have hdiv : (256 * toNat bs + b.toNat) / 256 = toNat bs := by omega
    have hlast : UInt8.ofNat (256 * toNat bs + b.toNat) = b := by
      rw [← UInt8.toNat_inj, UInt8.toNat_ofNat']
      omega
    rw [toNat_concat, List.length_append, List.length_singleton, ofNat, hdiv, hlast, ih]

theorem ofNat_toNat_of_length {bs : Bytes} {k : Nat} (h : bs.length = k) :
    ofNat k (toNat bs) = bs :=
  h ▸ ofNat_toNat bs

end Switchyard.Bytes
