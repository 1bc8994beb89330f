/-!
# The window

A stream refers back to at most 32768 of its last bytes. The window keeps that many of them and
drops older ones a page at a time, so its size tells how far the current page is filled. Before the
first byte of a stream lie zeros.
-/

namespace Switchyard.Deflate

/-- The size of a page, and how far back a stream may refer. -/
def pageSize : Nat := 32768

/-- The last bytes of a stream. -/
structure Window where
  bytes : Array UInt8
  deriving DecidableEq

namespace Window

/-- The window of a stream that has not begun. -/
def empty : Window := ⟨#[]⟩

/-- The window after one more byte. -/
def push (w : Window) (b : UInt8) : Window :=
  let bytes := w.bytes.push b
  if bytes.size < 2 * pageSize then ⟨bytes⟩ else ⟨bytes.extract pageSize bytes.size⟩

/-- The byte at a distance from the end; the last byte has distance one. -/
def back (w : Window) (distance : Nat) : UInt8 :=
  if distance ≤ w.bytes.size then w.bytes.getD (w.bytes.size - distance) 0 else 0

/-- How many bytes fit into the current page. -/
def pageRoom (w : Window) : Nat :=
  pageSize - w.bytes.size % pageSize

end Window

end Switchyard.Deflate
