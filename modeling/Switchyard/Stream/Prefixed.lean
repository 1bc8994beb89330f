import Switchyard.Stream.Basic

/-!
# Streams with bytes put back

Bytes that were read from a stream can be put in front of it again. The stream then gives them first,
and passes everything else on: no byte is lost or given twice.
-/

namespace Switchyard

/-- A stream with bytes put in front of it. -/
structure PrefixedStream (σ : Type) where
  /-- The bytes that are given first. -/
  front : Bytes
  inner : σ

namespace PrefixedStream

variable {σ : Type} [ByteStream σ]

/-- Reads from the front as long as there is any. -/
def read (n : Nat) (s : PrefixedStream σ) : Poll Bytes × PrefixedStream σ :=
  if s.front = [] then
    let (answer, inner) := ByteStream.read n s.inner
    (answer, { s with inner })
  else (.ready (s.front.take n), { s with front := s.front.drop n })

/-- Does something to the stream behind the front. -/
def pass {α : Type} (f : σ → Poll α × σ) (s : PrefixedStream σ) : Poll α × PrefixedStream σ :=
  let (answer, inner) := f s.inner
  (answer, { s with inner })

/-- The bytes in front and those behind them. -/
def backlog (s : PrefixedStream σ) : Nat :=
  s.front.length + ByteStream.backlog s.inner

theorem length_read_le {n : Nat} {s s' : PrefixedStream σ} {bs : Bytes}
    (h : read n s = (.ready bs, s')) : bs.length ≤ n := by
  unfold read at h
  split at h
  · exact ByteStream.length_read_le (Prod.ext (Prod.mk.inj h).1 rfl)
  · cases h
    exact List.length_take_le _ _

theorem backlog_lt {n : Nat} {s s' : PrefixedStream σ} {bs : Bytes}
    (h : read n s = (.ready bs, s')) (hne : bs ≠ []) : backlog s' < backlog s := by
  unfold read at h
  split at h
  · obtain ⟨h1, h2⟩ := Prod.mk.inj h
    cases h2
    exact Nat.add_lt_add_left (ByteStream.backlog_lt (Prod.ext h1 rfl) hne) s.front.length
  · obtain ⟨h1, h2⟩ := Prod.mk.inj h
    cases h1
    cases h2
    have hpos := List.length_pos_iff.2 hne
    simp only [List.length_take] at hpos
    simp only [backlog, List.length_drop]
    omega

theorem backlog_read_le (n : Nat) (s : PrefixedStream σ) : backlog (read n s).2 ≤ backlog s := by
  unfold read
  split
  · exact Nat.add_le_add_left (ByteStream.backlog_read_le n s.inner) s.front.length
  · simp only [backlog, List.length_drop]
    omega

instance : ByteStream (PrefixedStream σ) where
  read := read
  write bs := pass (ByteStream.write bs)
  flush := pass ByteStream.flush
  shutdown := pass ByteStream.shutdown
  backlog := backlog
  length_read_le := length_read_le
  backlog_lt := backlog_lt
  backlog_read_le := backlog_read_le
  backlog_write_le bs s :=
    Nat.add_le_add_left (ByteStream.backlog_write_le bs s.inner) s.front.length

end PrefixedStream

end Switchyard
