import Switchyard.Digest.Block

/-!
# SHA-224

The digest of FIPS 180-4, section 6.3: the compression function of SHA-256 from an initial state
of its own, with the last of the eight words left out. Every digest has 28 bytes
(`length_digest`).
-/

namespace Switchyard.Sha224

open Digest

/-- The eight words that the compression function carries from block to block. -/
structure State where
  a : UInt32
  b : UInt32
  c : UInt32
  d : UInt32
  e : UInt32
  f : UInt32
  g : UInt32
  h : UInt32

/-- The state before the first block. -/
def State.initial : State where
  a := 0xc1059ed8
  b := 0x367cd507
  c := 0x3070dd17
  d := 0xf70e5939
  e := 0xffc00b31
  f := 0x68581511
  g := 0x64f98fa7
  h := 0xbefa4fa4

/-- The 64 round constants. -/
def constants : List UInt32 :=
  [0x428a2f98, 0x71374491, 0xb5c0fbcf, 0xe9b5dba5, 0x3956c25b, 0x59f111f1, 0x923f82a4, 0xab1c5ed5,
   0xd807aa98, 0x12835b01, 0x243185be, 0x550c7dc3, 0x72be5d74, 0x80deb1fe, 0x9bdc06a7, 0xc19bf174,
   0xe49b69c1, 0xefbe4786, 0x0fc19dc6, 0x240ca1cc, 0x2de92c6f, 0x4a7484aa, 0x5cb0a9dc, 0x76f988da,
   0x983e5152, 0xa831c66d, 0xb00327c8, 0xbf597fc7, 0xc6e00bf3, 0xd5a79147, 0x06ca6351, 0x14292967,
   0x27b70a85, 0x2e1b2138, 0x4d2c6dfc, 0x53380d13, 0x650a7354, 0x766a0abb, 0x81c2c92e, 0x92722c85,
   0xa2bfe8a1, 0xa81a664b, 0xc24b8b70, 0xc76c51a3, 0xd192e819, 0xd6990624, 0xf40e3585, 0x106aa070,
   0x19a4c116, 0x1e376c08, 0x2748774c, 0x34b0bcb5, 0x391c0cb3, 0x4ed8aa4a, 0x5b9cca4f, 0x682e6ff3,
   0x748f82ee, 0x78a5636f, 0x84c87814, 0x8cc70208, 0x90befffa, 0xa4506ceb, 0xbef9a3f7, 0xc67178f2]

/-- The word that follows the words `w` of the schedule, `i` words after its beginning. -/
def nextWord (w : Array UInt32) (i : Nat) : UInt32 :=
  let x := w.getD (i + 1) 0
  let y := w.getD (i + 14) 0
  let s0 := rotateLeft x 25 ^^^ rotateLeft x 14 ^^^ (x >>> 3)
  let s1 := rotateLeft y 15 ^^^ rotateLeft y 13 ^^^ (y >>> 10)
  w.getD i 0 + s0 + w.getD (i + 9) 0 + s1

/-- The 64 words that a block feeds to the rounds. -/
def schedule (block : Bytes) : Array UInt32 :=
  (List.range 48).foldl (fun w i => w.push (nextWord w i)) (words block).toArray

/-- One round, with its constant and its word of the schedule. -/
def round (s : State) (k w : UInt32) : State :=
  let s1 := rotateLeft s.e 26 ^^^ rotateLeft s.e 21 ^^^ rotateLeft s.e 7
  let choice := (s.e &&& s.f) ^^^ (~~~s.e &&& s.g)
  let t1 := s.h + s1 + choice + k + w
  let s0 := rotateLeft s.a 30 ^^^ rotateLeft s.a 19 ^^^ rotateLeft s.a 10
  let majority := (s.a &&& s.b) ^^^ (s.a &&& s.c) ^^^ (s.b &&& s.c)
  ⟨t1 + (s0 + majority), s.a, s.b, s.c, s.d + t1, s.e, s.f, s.g⟩

/-- The state after one more block. -/
def compress (s : State) (block : Bytes) : State :=
  let r := (constants.zip (schedule block).toList).foldl (fun r (k, w) => round r k w) s
  ⟨s.a + r.a, s.b + r.b, s.c + r.c, s.d + r.d, s.e + r.e, s.f + r.f, s.g + r.g, s.h + r.h⟩

/-- The first seven words of a state, as bytes. -/
def State.bytes (s : State) : Bytes :=
  wordBytes s.a ++ wordBytes s.b ++ wordBytes s.c ++ wordBytes s.d ++ wordBytes s.e ++
    wordBytes s.f ++ wordBytes s.g

/-- The SHA-224 digest of a message. -/
def digest (message : Bytes) : Bytes :=
  (foldBlocks compress State.initial (pad message)).bytes

@[simp] theorem length_digest (message : Bytes) : (digest message).length = 28 := by
  simp [digest, State.bytes, wordBytes]

end Switchyard.Sha224
