/-!
# Counting sessions and bytes

A session takes a slot when it begins and gives it back once, however often it is told to. The
program counts the slots that are taken and the bytes relayed in each direction, in words of 64
bits. A second return of a slot changes nothing: `giveBack_giveBack`.
-/

namespace Switchyard

/-- The slots of sessions, first taken first, and the sums of relayed bytes. -/
structure Tally where
  /-- Whether each slot ever taken is still taken. -/
  slots : List Bool
  /-- The number of taken slots. -/
  active : UInt64
  /-- Bytes from clients to their destinations. -/
  up : UInt64
  /-- Bytes from destinations to their clients. -/
  down : UInt64
  deriving DecidableEq, Repr

namespace Tally

/-- Nothing counted. -/
def zero : Tally := ⟨[], 0, 0, 0⟩

/-- A session begins, in the next slot. -/
def take (t : Tally) : Tally :=
  { t with slots := t.slots ++ [true], active := t.active + 1 }

/-- The session in slot `i` gives its slot back, if it still has it. -/
def giveBack (t : Tally) (i : Nat) : Tally :=
  if t.slots[i]? = some true then
    { t with slots := t.slots.set i false, active := t.active - 1 }
  else t

theorem giveBack_giveBack (t : Tally) (i : Nat) : (t.giveBack i).giveBack i = t.giveBack i := by
  have h : (t.giveBack i).slots[i]? ≠ some true := by
    unfold giveBack
    split
    · simp [List.getElem?_set]
    · assumption
  rw [giveBack, if_neg h]

/-- Counts `n` bytes on their way to a destination. -/
def addUp (t : Tally) (n : Nat) : Tally :=
  { t with up := t.up + UInt64.ofNat n }

/-- Counts `n` bytes on their way to a client. -/
def addDown (t : Tally) (n : Nat) : Tally :=
  { t with down := t.down + UInt64.ofNat n }

end Tally

end Switchyard
