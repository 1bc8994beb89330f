import Switchyard.Bytes

/-!
# Byte streams that are polled

A stream is asked for bytes, or given some, and answers at once: it is done, it fails, or the caller
has to wait. What can be read without waiting is bounded by the stream's `backlog`, which shrinks
whenever bytes are read; so a caller that reads until it has to wait comes to an end.
-/

namespace Switchyard

/-- The kinds of error that a stream may report. -/
inductive StreamErrorKind where
  | invalidData
  | connectionReset
  | brokenPipe
  | timedOut
  | unexpectedEof
  | writeZero
  | other
  deriving DecidableEq, Repr

/-- An error of a stream. -/
structure StreamError where
  kind : StreamErrorKind
  message : List Char
  deriving DecidableEq, Repr

/-- What a stream answers. -/
inductive Poll (α : Type) where
  | ready (a : α)
  | failed (e : StreamError)
  | pending
  deriving DecidableEq, Repr

/-- A stream of bytes in both directions. -/
class ByteStream (σ : Type) where
  /-- Reads at most `n` bytes. For `n` other than zero, no bytes mean the end of the stream. -/
  read : Nat → σ → Poll Bytes × σ
  /-- Writes some of the bytes, from the first on, and tells how many. -/
  write : Bytes → σ → Poll Nat × σ
  /-- Passes on what was written. -/
  flush : σ → Poll Unit × σ
  /-- Ends the direction of writing. -/
  shutdown : σ → Poll Unit × σ
  /-- A bound on the bytes that can be read without waiting. -/
  backlog : σ → Nat
  /-- A read gives no more bytes than there is room for. -/
  length_read_le {n : Nat} {s s' : σ} {bs : Bytes} : read n s = (.ready bs, s') → bs.length ≤ n
  /-- Reading bytes takes them off the backlog. -/
  backlog_lt {n : Nat} {s s' : σ} {bs : Bytes} :
    read n s = (.ready bs, s') → bs ≠ [] → backlog s' < backlog s
  /-- No read adds to the backlog. -/
  backlog_read_le (n : Nat) (s : σ) : backlog (read n s).2 ≤ backlog s
  /-- No write adds to the backlog. -/
  backlog_write_le (bs : Bytes) (s : σ) : backlog (write bs s).2 ≤ backlog s

/-- A call that was asked to write bytes wrote none. -/
def StreamError.writeZero (message : String) : StreamError :=
  ⟨.writeZero, message.toList⟩

end Switchyard
