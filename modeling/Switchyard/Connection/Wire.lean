import Switchyard.Stream.Basic

/-!
# Wires

A wire holds in memory what a client and the program have sent each other. What the client sends is
read in pieces of any size, so separate sends may be read as one. What the program writes is there for
the client at once.
-/

namespace Switchyard

/-- A wire, seen from the program. -/
structure Wire where
  /-- Bytes of the client that were not read. -/
  sent : Bytes
  /-- The client sends nothing more. -/
  ended : Bool
  /-- The next read fails. -/
  fault : Option StreamError
  /-- The client does not take anything more. -/
  gone : Bool
  /-- Bytes for the client that it has not taken. -/
  written : Bytes
  deriving DecidableEq, Repr

namespace Wire

/-- A wire on which nothing was sent. -/
def idle : Wire :=
  ⟨[], false, none, false, []⟩

/-- Reads what the client has sent. -/
def read (n : Nat) (w : Wire) : Poll Bytes × Wire :=
  match w.fault with
  | some e => (.failed e, { w with fault := none })
  | none =>
    if w.sent ≠ [] then (.ready (w.sent.take n), { w with sent := w.sent.drop n })
    else if w.ended then (.ready [], w)
    else (.pending, w)

/-- The error of writing to a client that has gone, or of sending to a program that has. -/
def brokenPipe : StreamError :=
  ⟨.brokenPipe, "broken pipe".toList⟩

/-- Writes to the client. -/
def write (bs : Bytes) (w : Wire) : Poll Nat × Wire :=
  if w.gone then (.failed brokenPipe, w)
  else (.ready bs.length, { w with written := w.written ++ bs })

/-! ### What a client does -/

/-- The client sends bytes. -/
def send (bs : Bytes) (w : Wire) : Wire :=
  { w with sent := w.sent ++ bs }

/-- The client sends nothing more. -/
def finish (w : Wire) : Wire :=
  { w with ended := true }

/-- The client goes away. -/
def hangUp (w : Wire) : Wire :=
  { w with ended := true, gone := true }

/-! ### The wire as a stream -/

/-- How many bytes of the client were not read. -/
def backlog (w : Wire) : Nat :=
  w.sent.length

theorem length_read_le {n : Nat} {w w' : Wire} {bs : Bytes} (h : read n w = (.ready bs, w')) :
    bs.length ≤ n := by
  unfold read at h
  repeat' split at h
  all_goals cases h
  · exact List.length_take_le _ _
  · exact Nat.zero_le n

theorem backlog_lt {n : Nat} {w w' : Wire} {bs : Bytes} (h : read n w = (.ready bs, w'))
    (hne : bs ≠ []) : backlog w' < backlog w := by
  unfold read at h
  split at h
  · cases h
  · split at h
    · cases h
      have hpos := List.length_pos_iff.2 hne
      simp only [List.length_take] at hpos
      simp only [backlog, List.length_drop]
      omega
    · split at h
      · cases h
        exact absurd rfl hne
      · cases h

theorem backlog_read_le (n : Nat) (w : Wire) : backlog (read n w).2 ≤ backlog w := by
  unfold read
  repeat' split
  all_goals simp [backlog]

theorem sent_write (bs : Bytes) (w : Wire) : (write bs w).2.sent = w.sent := by
  unfold write
  split <;> rfl

instance : ByteStream Wire where
  read := read
  write := write
  flush w := (.ready (), w)
  shutdown w := (.ready (), w)
  backlog := backlog
  length_read_le := length_read_le
  backlog_lt := backlog_lt
  backlog_read_le := backlog_read_le
  backlog_write_le bs w := by simp only [backlog, sent_write, Nat.le_refl]

end Wire

end Switchyard
