import Mathlib.Algebra.GroupWithZero.Nat
import Switchyard.Deflate.Inflater

/-!
# The format of compressed data

RFC 1951 as a grammar, written down from the side of the compressor and without a decoder: `HasCode`
numbers the codes as section 3.2.2 does, `Elements` is the data of a block, `Description` the codes
that a block brings along, and `Block` a block of any kind. `Blocks` is a series of blocks, in which a
stream may end and a new one begin behind it. `Carries` is a whole message, flushed as RFC 7692 asks
for, section 7.2.1: an empty stored block ends it, and the lengths of that block are not sent.

A grammar symbol relates the bits from some place on to what they stand for and to the bits behind it,
and `history` is what the stream has given so far.
-/

namespace Switchyard.Deflate

/-! ### Bits -/

/-- The bits of a byte string, those of a byte from the lowest one on. -/
def bitsOf (bs : Bytes) : List Bool :=
  bs.flatMap byteBits

/-- A number in `k` bits, the lowest one first. -/
def numberBits (k n : Nat) : List Bool :=
  (List.range k).map n.testBit

/-- A code of `k` bits, the highest one first. -/
def codeBits (k n : Nat) : List Bool :=
  (numberBits k n).reverse

/-! ### Codes -/

/-- How many codes of a length there are. -/
def codeCount (lengths : List Nat) (l : Nat) : Nat :=
  if l = 0 then 0 else lengths.count l

/-- The first code of a length. -/
def firstCode (lengths : List Nat) : Nat → Nat
  | 0 => 0
  | l + 1 => 2 * (firstCode lengths l + codeCount lengths l)

/-- The code of the symbol is written with these bits, if `lengths` are the lengths of the codes. -/
def HasCode (lengths : List Nat) (symbol : Nat) (bits : List Bool) : Prop :=
  ∃ l, lengths[symbol]? = some l ∧ l ≠ 0 ∧
    bits = codeBits l (firstCode lengths l + (lengths.take symbol).count l)

/-- How much of the space of codes is taken, in units of the longest ones. -/
def space (lengths : List Nat) : Nat :=
  ((lengths.filter (· ≠ 0)).map fun l => 2 ^ (15 - l)).sum

/-- The lengths fit a code that leaves nothing free. -/
structure IsFull (lengths : List Nat) : Prop where
  le (l : Nat) : l ∈ lengths → l ≤ 15
  space_eq : space lengths = 2 ^ 15

/-- The lengths fit a code: one that leaves nothing free, or one with a single bit for its only
symbol, or one without symbols. -/
def IsUsable (lengths : List Nat) : Prop :=
  IsFull lengths ∨ (∀ l ∈ lengths, l ≤ 1) ∧ lengths.count 1 ≤ 1

/-! ### Blocks -/

/-- The bytes of a copy from so far back; the copy may reach into itself. -/
def copied (history : Bytes) (distance : Nat) : Nat → Bytes
  | 0 => []
  | n + 1 =>
    let b := history.getD (history.length - distance) 0
    b :: copied (history ++ [b]) distance n

/-- The data of a block with these codes, up to its end. -/
inductive Elements (literals distances : List Nat) (rest : List Bool) :
    Bytes → List Bool → Bytes → Prop where
  | endOfBlock {history : Bytes} {c : List Bool} (hc : HasCode literals 256 c) :
      Elements literals distances rest history (c ++ rest) []
  | literal {history out : Bytes} {b : UInt8} {c bits : List Bool}
      (hc : HasCode literals b.toNat c)
      (h : Elements literals distances rest (history ++ [b]) bits out) :
      Elements literals distances rest history (c ++ bits) (b :: out)
  | copy {history out : Bytes} {i j x y : Nat} {length distance : Based} {c c' bits : List Bool}
      (hc : HasCode literals (257 + i) c) (hi : copyLengths[i]? = some length)
      (hx : x < 2 ^ length.extraBits)
      (hc' : HasCode distances j c') (hj : copyDistances[j]? = some distance)
      (hy : y < 2 ^ distance.extraBits) (hback : distance.base + y ≤ history.length)
      (h : Elements literals distances rest
        (history ++ copied history (distance.base + y) (length.base + x)) bits out) :
      Elements literals distances rest history
        (c ++ numberBits length.extraBits x ++ c' ++ numberBits distance.extraBits y ++ bits)
        (copied history (distance.base + y) (length.base + x) ++ out)

/-- Code lengths that follow those in `done`, written with a code that has lengths itself. `all` are
those in `done` and the ones that follow. -/
inductive Lengths (code : List Nat) (rest : List Bool) (all : List Nat) :
    List Nat → List Bool → Prop where
  | done : Lengths code rest all all rest
  | one {done : List Nat} {l : Nat} {c bits : List Bool} (hl : l < 16) (hc : HasCode code l c)
      (h : Lengths code rest all (done ++ [l]) bits) :
      Lengths code rest all done (c ++ bits)
  | again {done : List Nat} {l x : Nat} {c bits : List Bool} (hc : HasCode code 16 c) (hx : x < 4)
      (h : Lengths code rest all (done ++ [l] ++ List.replicate (3 + x) l) bits) :
      Lengths code rest all (done ++ [l]) (c ++ numberBits 2 x ++ bits)
  | zeros {done : List Nat} {x : Nat} {c bits : List Bool} (hc : HasCode code 17 c) (hx : x < 8)
      (h : Lengths code rest all (done ++ List.replicate (3 + x) 0) bits) :
      Lengths code rest all done (c ++ numberBits 3 x ++ bits)
  | manyZeros {done : List Nat} {x : Nat} {c bits : List Bool} (hc : HasCode code 18 c)
      (hx : x < 128) (h : Lengths code rest all (done ++ List.replicate (11 + x) 0) bits) :
      Lengths code rest all done (c ++ numberBits 7 x ++ bits)

/-- The codes that a block brings along: their sizes, the lengths of the code for code lengths, and
the lengths of the codes. -/
inductive Description (literals distances : List Nat) (rest : List Bool) : List Bool → Prop where
  | mk {described : List Nat} {bits : List Bool}
      (hliterals : 257 ≤ literals.length ∧ literals.length ≤ 286)
      (hdistances : 1 ≤ distances.length ∧ distances.length ≤ 30)
      (hdescribed : 4 ≤ described.length ∧ described.length ≤ 19)
      (hthree : ∀ l ∈ described, l < 8)
      (hcode : IsFull (lengthsInOrder described))
      (hall : Lengths (lengthsInOrder described) rest (literals ++ distances) [] bits)
      (huse : IsUsable literals ∧ IsUsable distances) :
      Description literals distances rest
        (numberBits 5 (literals.length - 257) ++ numberBits 5 (distances.length - 1) ++
          numberBits 4 (described.length - 4) ++ described.flatMap (numberBits 3) ++ bits)

/-- The lengths of the codes for literals and copies of blocks that bring none along. -/
def fixedLiterals : List Nat :=
  List.replicate 144 8 ++ List.replicate 112 9 ++ List.replicate 24 7 ++ List.replicate 8 8

/-- The lengths of the codes for distances of such blocks. -/
def fixedDistances : List Nat :=
  List.replicate 32 5

/-- A block: its header, and data of the kind that the header announces. A stored block begins with a
new byte, which leaves a whole number of bytes behind it. -/
inductive Block (last : Bool) (history : Bytes) (rest : List Bool) :
    List Bool → Bytes → Prop where
  | stored {padding : List Bool} {bs : Bytes} (hpadding : padding.length < 8)
      (hrest : rest.length % 8 = 0) (hbs : bs.length < 65536) :
      Block last history rest
        ([last] ++ numberBits 2 0 ++ padding ++ numberBits 16 bs.length ++
          numberBits 16 (65535 - bs.length) ++ bitsOf bs ++ rest) bs
  | fixed {bits : List Bool} {out : Bytes}
      (h : Elements fixedLiterals fixedDistances rest history bits out) :
      Block last history rest ([last] ++ numberBits 2 1 ++ bits) out
  | dynamic {literals distances : List Nat} {bits bits' : List Bool} {out : Bytes}
      (hcodes : Description literals distances bits' bits)
      (h : Elements literals distances rest history bits' out) :
      Block last history rest ([last] ++ numberBits 2 2 ++ bits) out

/-! ### Messages -/

/-- Blocks that follow one another, and the history behind them. Behind the last block of a stream, a
stream without a history begins with a new byte. -/
inductive Blocks (rest : List Bool) (history' : Bytes) : Bytes → List Bool → Bytes → Prop where
  | done : Blocks rest history' history' rest []
  | block {history out outs : Bytes} {bits more : List Bool} (hb : Block false history more bits out)
      (h : Blocks rest history' (history ++ out) more outs) :
      Blocks rest history' history bits (out ++ outs)
  | final {history out outs : Bytes} {bits padding more : List Bool}
      (hb : Block true history (padding ++ more) bits out) (hpadding : padding.length < 8)
      (hmore : more.length % 8 = 0) (h : Blocks rest history' [] more outs) :
      Blocks rest history' history bits (out ++ outs)

/-- The payload carries a message, given the history that the messages before it have left behind.
The blocks of the message are followed by the header of an empty stored block; the lengths of that
block would come next. -/
def Carries (history payload message history' : Bytes) : Prop :=
  ∃ padding : List Bool, padding.length < 8 ∧
    Blocks ([false] ++ numberBits 2 0 ++ padding) history' history (bitsOf payload) message

end Switchyard.Deflate
