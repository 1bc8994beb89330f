import Switchyard.Stream.Basic

/-!
# Writing everything

A call may take only some of the bytes it is given. `writeSome` makes one call and tells what is
left; a call that takes none is an error. `writeAll` goes on until all bytes are taken, the stream
has to wait or fails. No call is made for no bytes.
-/

namespace Switchyard

variable {σ : Type} [ByteStream σ]

/-- Writes some of the bytes, and gives those that are left. -/
def writeSome (bs : Bytes) (s : σ) : Poll Bytes × σ :=
  match ByteStream.write bs s with
  | (.pending, s) => (.pending, s)
  | (.failed e, s) => (.failed e, s)
  | (.ready 0, s) => (.failed (.writeZero "write zero"), s)
  | (.ready (n + 1), s) => (.ready (bs.drop (n + 1)), s)

theorem length_writeSome_lt {b : UInt8} {bs rest : Bytes} {s s' : σ}
    (h : writeSome (b :: bs) s = (.ready rest, s')) : rest.length < (b :: bs).length := by
  unfold writeSome at h
  split at h <;> cases h
  rw [List.length_drop, List.length_cons]
  omega

/-- Writing does not add to the backlog. -/
theorem backlog_writeSome_le (bs : Bytes) (s : σ) :
    ByteStream.backlog (writeSome bs s).2 ≤ ByteStream.backlog s := by
  have hw := ByteStream.backlog_write_le bs s
  unfold writeSome
  split <;> (next h => rw [h] at hw; exact hw)

/-- How far writing has come. -/
inductive Written where
  | done
  /-- These bytes have to wait. -/
  | waiting (rest : Bytes)
  | failed (e : StreamError)
  deriving DecidableEq, Repr

/-- Writes all of the bytes, as far as that is possible now. -/
def writeAll (bs : Bytes) (s : σ) : Written × σ :=
  match _h : bs with
  | [] => (.done, s)
  | _ :: _ =>
    match _hw : writeSome bs s with
    | (.pending, s) => (.waiting bs, s)
    | (.failed e, s) => (.failed e, s)
    | (.ready rest, s) => writeAll rest s
termination_by bs.length
decreasing_by
  subst _h
  exact length_writeSome_lt _hw

theorem backlog_writeAll_le (bs : Bytes) (s : σ) :
    ByteStream.backlog (writeAll bs s).2 ≤ ByteStream.backlog s := by
  fun_induction writeAll bs s with
  | case1 => exact Nat.le_refl _
  | case2 s b bs s' h => exact h ▸ backlog_writeSome_le (b :: bs) s
  | case3 s b bs e s' h => exact h ▸ backlog_writeSome_le (b :: bs) s
  | case4 s b bs rest s' h ih =>
    have hw := backlog_writeSome_le (b :: bs) s
    rw [h] at hw
    split
    · next h' => cases h.symm.trans h'
    · next h' => cases h.symm.trans h'
    · next h' =>
      cases h.symm.trans h'
      exact Nat.le_trans ih hw

end Switchyard
