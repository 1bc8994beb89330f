import Switchyard.Digest.Block

/-!
# SHA-1

The digest of FIPS 180-4, section 6.1, which the opening handshake of a WebSocket uses to answer
a client's key. Every digest has 20 bytes (`length_digest`).
-/

namespace Switchyard.Sha1

open Digest

/-- The five words that the compression function carries from block to block. -/
structure State where
  a : UInt32
  b : UInt32
  c : UInt32
  d : UInt32
  e : UInt32

/-- The state before the first block. -/
def State.initial : State where
  a := 0x67452301
  b := 0xefcdab89
  c := 0x98badcfe
  d := 0x10325476
  e := 0xc3d2e1f0

/-- The 80 words that a block feeds to the rounds. -/
def schedule (block : Bytes) : Array UInt32 :=
  (List.range 64).foldl
    (fun w i =>
      w.push (rotateLeft
        (w.getD (i + 13) 0 ^^^ w.getD (i + 8) 0 ^^^ w.getD (i + 2) 0 ^^^ w.getD i 0) 1))
    (words block).toArray

/-- The mixing function and the constant of round `i`. -/
def mix (i : Nat) (s : State) : UInt32 :=
  if i < 20 then ((s.b &&& s.c) ||| (~~~s.b &&& s.d)) + 0x5a827999
  else if i < 40 then (s.b ^^^ s.c ^^^ s.d) + 0x6ed9eba1
  else if i < 60 then ((s.b &&& s.c) ||| (s.b &&& s.d) ||| (s.c &&& s.d)) + 0x8f1bbcdc
  else (s.b ^^^ s.c ^^^ s.d) + 0xca62c1d6

/-- Round `i`, with its word of the schedule. -/
def round (s : State) (i : Nat) (w : UInt32) : State :=
  ⟨rotateLeft s.a 5 + mix i s + s.e + w, s.a, rotateLeft s.b 30, s.c, s.d⟩

/-- The state after one more block. -/
def compress (s : State) (block : Bytes) : State :=
  let r := ((List.range 80).zip (schedule block).toList).foldl (fun r (i, w) => round r i w) s
  ⟨s.a + r.a, s.b + r.b, s.c + r.c, s.d + r.d, s.e + r.e⟩

/-- The five words of a state, as bytes. -/
def State.bytes (s : State) : Bytes :=
  wordBytes s.a ++ wordBytes s.b ++ wordBytes s.c ++ wordBytes s.d ++ wordBytes s.e

/-- The SHA-1 digest of a message. -/
def digest (message : Bytes) : Bytes :=
  (foldBlocks compress State.initial (pad message)).bytes

@[simp] theorem length_digest (message : Bytes) : (digest message).length = 20 := by
  simp [digest, State.bytes, wordBytes]

end Switchyard.Sha1
