/-!
# What symbols mean

The symbols of compressed blocks (RFC 1951, section 3.2.5): 0 to 255 are bytes, 256 ends the block,
and 257 to 285 begin a copy. A length or distance is a base plus the value of some extra bits.
-/

namespace Switchyard.Deflate

/-- A number of which the stream tells the distance from a base, in a given number of bits. -/
structure Based where
  base : Nat
  extraBits : Nat
  deriving DecidableEq, Repr

/-- The lengths of copies that the symbols from 257 on stand for. -/
def copyLengths : List Based :=
  [⟨3, 0⟩, ⟨4, 0⟩, ⟨5, 0⟩, ⟨6, 0⟩, ⟨7, 0⟩, ⟨8, 0⟩, ⟨9, 0⟩, ⟨10, 0⟩,
   ⟨11, 1⟩, ⟨13, 1⟩, ⟨15, 1⟩, ⟨17, 1⟩, ⟨19, 2⟩, ⟨23, 2⟩, ⟨27, 2⟩, ⟨31, 2⟩,
   ⟨35, 3⟩, ⟨43, 3⟩, ⟨51, 3⟩, ⟨59, 3⟩, ⟨67, 4⟩, ⟨83, 4⟩, ⟨99, 4⟩, ⟨115, 4⟩,
   ⟨131, 5⟩, ⟨163, 5⟩, ⟨195, 5⟩, ⟨227, 5⟩, ⟨258, 0⟩]

/-- The distances of copies that symbols stand for. -/
def copyDistances : List Based :=
  [⟨1, 0⟩, ⟨2, 0⟩, ⟨3, 0⟩, ⟨4, 0⟩, ⟨5, 1⟩, ⟨7, 1⟩, ⟨9, 2⟩, ⟨13, 2⟩, ⟨17, 3⟩, ⟨25, 3⟩,
   ⟨33, 4⟩, ⟨49, 4⟩, ⟨65, 5⟩, ⟨97, 5⟩, ⟨129, 6⟩, ⟨193, 6⟩, ⟨257, 7⟩, ⟨385, 7⟩, ⟨513, 8⟩, ⟨769, 8⟩,
   ⟨1025, 9⟩, ⟨1537, 9⟩, ⟨2049, 10⟩, ⟨3073, 10⟩, ⟨4097, 11⟩, ⟨6145, 11⟩, ⟨8193, 12⟩, ⟨12289, 12⟩,
   ⟨16385, 13⟩, ⟨24577, 13⟩]

/-- What a symbol of the code for literals and lengths asks for. -/
inductive Element where
  | literal (b : UInt8)
  | endOfBlock
  | copy (length : Based)
  deriving DecidableEq, Repr

/-- The meaning of a symbol; some symbols have none. -/
def Element.ofSymbol? (s : Nat) : Option Element :=
  if s < 256 then some (.literal (UInt8.ofNat s))
  else if s = 256 then some .endOfBlock
  else copyLengths[s - 257]?.map .copy

/-- A run of code lengths in the description of a code. -/
inductive LengthRun where
  /-- One length. -/
  | one (length : Nat)
  /-- The last length again, some times. -/
  | again (times : Based)
  /-- Zeros. -/
  | zeros (times : Based)
  deriving DecidableEq, Repr

/-- The meaning of a symbol in the description of a code. -/
def LengthRun.ofSymbol (s : Nat) : LengthRun :=
  if s < 16 then .one s
  else if s = 16 then .again ⟨3, 2⟩
  else if s = 17 then .zeros ⟨3, 3⟩
  else .zeros ⟨11, 7⟩

/-- The order in which the code for code lengths is described. -/
def lengthOrder : List Nat :=
  [16, 17, 18, 0, 8, 7, 9, 6, 10, 5, 11, 4, 12, 3, 13, 2, 14, 1, 15]

/-- The lengths by symbol, from those in the order of the description. -/
def lengthsInOrder (described : List Nat) : List Nat :=
  (List.range lengthOrder.length).map fun s => ((lengthOrder.zip described).lookup s).getD 0

end Switchyard.Deflate
