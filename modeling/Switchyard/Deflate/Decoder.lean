import Switchyard.Bytes
import Switchyard.Deflate.Phase
import Switchyard.Deflate.Window

/-!
# Decoding a page at a time

A decoder keeps what it has of a stream: the phase, the window, the unread bits of the last byte, and
bytes that were asked for when no room was left. `Decoder.run` reads input until it is used up, the
stream ends or fails, or the current page of 32768 bytes is full and more bytes are asked for. What
it cannot read it gives back.
-/

namespace Switchyard.Deflate

/-- The bits of a byte, lowest first. -/
def byteBits (b : UInt8) : List Bool :=
  (List.range 8).map b.toNat.testBit

/-- A stream in the midst of decoding. -/
structure Decoder where
  phase : Phase
  /-- The unread bits of the last byte read. -/
  bits : List Bool
  /-- Bytes that were asked for and found no room. -/
  waiting : Option Emission
  window : Window
  deriving DecidableEq

/-- A stream that has not begun. -/
def Decoder.start : Decoder :=
  ⟨.start, [], none, .empty⟩

/-- A page in the midst of being filled. -/
structure Page where
  phase : Phase
  waiting : Option Emission
  window : Window
  /-- How many bytes still fit. -/
  room : Nat
  /-- The bytes written to the page, last one first. -/
  written : List UInt8

namespace Page

/-- Writes a byte. -/
def put (p : Page) (b : UInt8) : Page :=
  { p with window := p.window.push b, room := p.room - 1, written := b :: p.written }

/-- Writes the bytes of a copy as far as they fit; the others wait. -/
def copy (p : Page) (distance : Nat) : Nat → Page
  | 0 => { p with waiting := none }
  | n + 1 =>
    if p.room = 0 then { p with waiting := some (.copy (n + 1) distance) }
    else (p.put (p.window.back distance)).copy distance n

/-- Writes the bytes that wait, as far as they fit. -/
def settle (p : Page) : Page :=
  match p.waiting with
  | none => p
  | some (.literal b) => if p.room = 0 then p else { p.put b with waiting := none }
  | some (.copy n distance) => p.copy distance n

/-- Reads a bit. -/
def step (p : Page) (bit : Bool) : Page :=
  let (phase, emission) := p.phase.step bit
  settle { p with phase, waiting := emission }

/-- Reads bits until bytes have to wait, and gives those that are left. -/
def readBits (p : Page) : List Bool → Page × List Bool
  | [] => (p, [])
  | bit :: bits =>
    if p.waiting.isSome then (p, bit :: bits)
    else
      let p := p.step bit
      if p.phase.startsByte then (p, []) else p.readBits bits

/-- Nothing more can be read. -/
def isHalted (p : Page) : Bool :=
  p.waiting.isSome || p.phase.isFinal

/-- Reads bytes until nothing more can be read. Gives the bits that are left of the last byte, and
the bytes after it. -/
def readBytes (p : Page) (bits : List Bool) : Bytes → Page × List Bool × Bytes
  | [] => (p, bits, [])
  | b :: bs =>
    if p.isHalted then (p, bits, b :: bs)
    else
      match p.phase with
      | .stored last count =>
        if p.room = 0 then (p, bits, b :: bs)
        else readBytes { p.put b with phase := .afterStored last count } [] bs
      | _ =>
        let (p, bits) := p.readBits (byteBits b)
        p.readBytes bits bs

end Page

/-- What a run of the decoder comes to. -/
structure Decoder.Run where
  decoder : Decoder
  /-- The bytes written, in order. -/
  written : Bytes
  /-- The input that was not read. -/
  rest : Bytes

/-- Decodes input up to the end of the current page. -/
def Decoder.run (d : Decoder) (input : Bytes) : Decoder.Run :=
  let page : Page := ⟨d.phase, d.waiting, d.window, d.window.pageRoom, []⟩
  let (page, bits) := page.settle.readBits d.bits
  let (page, bits, rest) := page.readBytes bits input
  ⟨⟨page.phase, bits, page.waiting, page.window⟩, page.written.reverse, rest⟩

end Switchyard.Deflate
