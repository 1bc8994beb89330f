import Switchyard.Stream.Basic

/-!
# Streams under script

A stream whose answers are laid down in advance: chunks for reading, the end or an error behind
them, how many bytes writes may take, and which calls fail or wait. A read takes bytes of the first
chunk only. An error is reported once.
-/

namespace Switchyard

/-- The answers that a stream will give, and what was written to it. -/
structure Script where
  /-- Chunks that wait to be read, none of them empty. -/
  chunks : List Bytes
  /-- Behind the chunks the stream ends. -/
  ended : Bool
  /-- Behind the chunks, and before the end, one read fails. -/
  readError : Option StreamError
  /-- How many bytes writes may still take; no limit if there is no number. -/
  credit : Option Nat
  /-- Writes take no bytes. -/
  takesNone : Bool
  writeError : Option StreamError
  flushError : Option StreamError
  shutdownError : Option StreamError
  flushBlocked : Bool
  shutdownBlocked : Bool
  /-- What was written, last part first. -/
  parts : List Bytes
  /-- The direction of writing has ended. -/
  isShut : Bool

namespace Script

/-- A stream with nothing to read and no limit on writes. -/
def idle : Script where
  chunks := []
  ended := false
  readError := none
  credit := none
  takesNone := false
  writeError := none
  flushError := none
  shutdownError := none
  flushBlocked := false
  shutdownBlocked := false
  parts := []
  isShut := false

/-- All that was written. -/
def written (s : Script) : Bytes :=
  s.parts.reverse.flatten

/-- Lays down another chunk; an empty one is none. -/
def feed (s : Script) (chunk : Bytes) : Script :=
  if chunk = [] then s else { s with chunks := s.chunks ++ [chunk] }

/-- Reads from the first chunk. -/
def read (n : Nat) (s : Script) : Poll Bytes × Script :=
  match s.chunks with
  | chunk :: chunks =>
    let rest := chunk.drop n
    (.ready (chunk.take n), { s with chunks := if rest = [] then chunks else rest :: chunks })
  | [] =>
    match s.readError with
    | some e => (.failed e, { s with readError := none })
    | none => if s.ended then (.ready [], s) else (.pending, s)

/-- Takes bytes as far as the credit goes. -/
def write (bs : Bytes) (s : Script) : Poll Nat × Script :=
  match s.writeError with
  | some e => (.failed e, { s with writeError := none })
  | none =>
    if s.takesNone then (.ready 0, s)
    else
      match s.credit with
      | none => (.ready bs.length, { s with parts := bs :: s.parts })
      | some credit =>
        if credit = 0 ∧ bs ≠ [] then (.pending, s)
        else
          let taken := bs.take credit
          (.ready taken.length,
            { s with parts := taken :: s.parts, credit := some (credit - taken.length) })

/-- Flushes, unless an error or a block is laid down. -/
def flush (s : Script) : Poll Unit × Script :=
  match s.flushError with
  | some e => (.failed e, { s with flushError := none })
  | none => if s.flushBlocked then (.pending, s) else (.ready (), s)

/-- Ends the direction of writing, unless an error or a block is laid down. -/
def shutdown (s : Script) : Poll Unit × Script :=
  match s.shutdownError with
  | some e => (.failed e, { s with shutdownError := none })
  | none => if s.shutdownBlocked then (.pending, s) else (.ready (), { s with isShut := true })

/-- How many bytes wait to be read. -/
def backlog (s : Script) : Nat :=
  s.chunks.flatten.length

theorem length_read_le {n : Nat} {s s' : Script} {bs : Bytes} (h : read n s = (.ready bs, s')) :
    bs.length ≤ n := by
  unfold read at h
  split at h
  · cases h
    exact List.length_take_le _ _
  · repeat' split at h
    all_goals cases h
    exact Nat.zero_le n

theorem backlog_lt {n : Nat} {s s' : Script} {bs : Bytes} (h : read n s = (.ready bs, s'))
    (hne : bs ≠ []) : backlog s' < backlog s := by
  unfold read at h
  split at h
  · next chunk chunks hc =>
    obtain ⟨h1, h2⟩ := Prod.mk.inj h
    cases h1
    cases h2
    have hpos := List.length_pos_iff.2 hne
    simp only [List.length_take] at hpos
    simp only [backlog, hc, List.flatten_cons, List.length_append]
    split
    · omega
    · simp only [List.flatten_cons, List.length_append, List.length_drop]
      omega
  · split at h
    · cases h
    · split at h
      · cases h
        exact absurd rfl hne
      · cases h

theorem backlog_read_le (n : Nat) (s : Script) : backlog (read n s).2 ≤ backlog s := by
  unfold read
  split
  · next chunk chunks hc =>
    simp only [backlog, hc, List.flatten_cons, List.length_append]
    split
    · omega
    · simp only [List.flatten_cons, List.length_append, List.length_drop]
      omega
  · repeat' split
    all_goals exact Nat.le_refl _

theorem chunks_write (bs : Bytes) (s : Script) : (write bs s).2.chunks = s.chunks := by
  unfold write
  repeat' split
  all_goals rfl

instance : ByteStream Script where
  read := read
  write := write
  flush := flush
  shutdown := shutdown
  backlog := backlog
  length_read_le := length_read_le
  backlog_lt := backlog_lt
  backlog_read_le := backlog_read_le
  backlog_write_le bs s := by simp only [backlog, chunks_write, Nat.le_refl]

end Script

end Switchyard
