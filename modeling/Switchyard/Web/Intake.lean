/-!
# How much is read at a time

The bytes of a client are kept in a store until they are used. Before each read room is made in the
store, and all of the room is offered to the client: at least as much as is wanted
(`wanted_le_room_reserve`). What is wanted doubles when a read brings all of it, and is halved when two
reads in a row bring less than half of it, within limits.
-/

namespace Switchyard

/-- The state of the reading from a client. -/
structure Intake where
  /-- The size of the store. -/
  store : Nat
  /-- So many bytes at the front of the store were used. -/
  used : Nat
  /-- A read should have room for so many bytes. -/
  wanted : Nat
  /-- The last read brought little. -/
  sparse : Bool
  /-- A request that is not answered yet refers to bytes in the store. -/
  lent : Bool
  deriving DecidableEq, Repr

namespace Intake

/-- The least that is wanted. -/
def minWanted : Nat := 8192

/-- The most that is wanted. -/
def maxWanted : Nat := 417792

/-- Nothing was read yet. -/
def start : Intake :=
  ⟨0, 0, minWanted, false, false⟩

/-- The room behind so many bytes that are not used yet. -/
def room (i : Intake) (unread : Nat) : Nat :=
  i.store - i.used - unread

/-- Makes room behind the bytes that are not used yet. A store that is lent is left to the request and
replaced; otherwise the bytes move to its front, if that is worth it, or it grows. -/
def reserve (i : Intake) (unread : Nat) : Intake :=
  if i.wanted ≤ i.room unread then i
  else if i.lent then { i with store := unread + i.wanted, used := 0, lent := false }
  else if unread + i.wanted ≤ i.store ∧ unread ≤ i.used then { i with used := 0 }
  else { i with store := max (2 * i.store) (i.used + unread + i.wanted) }

/-- Half of the largest power of two up to a number. -/
def halfPower (n : Nat) : Nat :=
  1 <<< (n.log2 - 1)

/-- Learns from a read that brought so many bytes. -/
def record (i : Intake) (n : Nat) : Intake :=
  if i.wanted ≤ n then { i with wanted := min (2 * i.wanted) maxWanted, sparse := false }
  else if halfPower i.wanted ≤ n then { i with sparse := false }
  else if i.sparse then { i with wanted := max (halfPower i.wanted) minWanted, sparse := false }
  else { i with sparse := true }

/-- So many bytes of the store were used. -/
def drop (i : Intake) (n : Nat) : Intake :=
  { i with used := i.used + n }

/-- A request refers to bytes in the store, or not. -/
def lend (i : Intake) (lent : Bool) : Intake :=
  { i with lent := i.lent || lent }

/-- The request is answered. -/
def release (i : Intake) : Intake :=
  { i with lent := false }

theorem wanted_le_room_reserve (i : Intake) (unread : Nat) :
    i.wanted ≤ (i.reserve unread).room unread := by
  unfold reserve
  split
  · assumption
  · split
    · simp only [room]
      omega
    · split
      · simp only [room]
        omega
      · simp only [room]
        omega

end Intake

end Switchyard
