import Switchyard.Deflate.Code
import Switchyard.Deflate.Symbols

/-!
# Reading a compressed stream bit by bit

`Phase` says what the next bit of a stream belongs to, and `Phase.step` what it leads to (RFC 1951,
section 3.2.3). A bit can complete an element that stands for bytes: a literal, or a copy of earlier
bytes. Fields of several bits are gathered last bit first. Bytes of a stored block are no bits; they
are counted by `Phase.stored` and taken whole.
-/

namespace Switchyard.Deflate

/-- Bytes that a stream asks for. -/
inductive Emission where
  | literal (b : UInt8)
  /-- The bytes from `distance` before the end on, `length` times one more. -/
  | copy (length distance : Nat)
  deriving DecidableEq, Repr

/-- The bits of a field that have been read, last one first. -/
abbrev Gathered := List Bool

/-- The number that gathered bits write; the lowest bit was read first. -/
def fieldValue (bits : Gathered) : Nat :=
  bits.foldl (fun n b => 2 * n + b.toNat) 0

/-- How many code lengths a block describes. -/
structure Counts where
  literals : Nat
  distances : Nat
  /-- For the code in which the other lengths are written. -/
  lengths : Nat
  deriving DecidableEq, Repr

/-- The counts in the 14 bits before a description. -/
def Counts.ofValue (n : Nat) : Counts :=
  ⟨n % 32 + 257, n / 32 % 32 + 1, n / 1024 + 4⟩

/-- There are symbols for the counts. -/
def Counts.isLegal (c : Counts) : Bool :=
  c.literals ≤ 286 && c.distances ≤ 30

/-- What the next bit belongs to. `last` tells whether the block is the last one of the stream. -/
inductive Phase where
  /-- The three bits before a block. -/
  | header (bits : Gathered)
  /-- Two lengths of 16 bits, the second being the complement of the first. -/
  | storedLengths (last : Bool) (bits : Gathered)
  /-- So many bytes that stand for themselves; at least one. -/
  | stored (last : Bool) (count : Nat)
  /-- The counts before a description of codes. -/
  | counts (last : Bool) (bits : Gathered)
  /-- The lengths of the code for code lengths, three bits each. -/
  | lengthCode (last : Bool) (counts : Counts) (bits : Gathered)
  /-- A symbol of the code for code lengths. `done` holds the lengths so far, last one first. -/
  | lengths (last : Bool) (counts : Counts) (code : CodeTree) (done : List Nat) (place : CodeTree)
  /-- How often a length is repeated. -/
  | lengthRun (last : Bool) (counts : Counts) (code : CodeTree) (done : List Nat) (length : Nat)
      (times : Based) (bits : Gathered)
  /-- A symbol for a literal, the length of a copy or the end of the block. -/
  | element (last : Bool) (codes : Codes) (place : CodeTree)
  /-- The extra bits of the length of a copy. -/
  | copyLength (last : Bool) (codes : Codes) (length : Based) (bits : Gathered)
  /-- A symbol for the distance of a copy. -/
  | distance (last : Bool) (codes : Codes) (length : Nat) (place : CodeTree)
  /-- The extra bits of the distance of a copy. -/
  | copyDistance (last : Bool) (codes : Codes) (length : Nat) (distance : Based) (bits : Gathered)
  /-- The stream has ended. -/
  | ended
  /-- The stream is not well formed. -/
  | failed
  deriving DecidableEq, Repr

namespace Phase

/-- The phase before the first bit of a stream. -/
def start : Phase := header []

/-- The phase after a block. -/
def afterBlock (last : Bool) : Phase :=
  if last then ended else start

/-- The phase at the first bit of a block's data. -/
def elements (last : Bool) (codes : Codes) : Phase :=
  element last codes codes.literals

/-- The phase after the header of a block of the given kind. -/
def afterHeader (last : Bool) (kind : Nat) : Phase :=
  if kind = 0 then storedLengths last []
  else if kind = 1 then elements last Codes.fixed
  else if kind = 2 then counts last []
  else failed

/-- The phase after the two lengths before a stored block. -/
def afterStoredLengths (last : Bool) (n : Nat) : Phase :=
  let length := n % 65536
  if n / 65536 ≠ 65535 - length then failed
  else if length = 0 then afterBlock last
  else stored last length

/-- The phase after a byte of a stored block, if `count` bytes were left with it. -/
def afterStored (last : Bool) (count : Nat) : Phase :=
  if count ≤ 1 then afterBlock last else stored last (count - 1)

/-- The phase after some of the code lengths of a block; when there are enough, the codes are
made of them. -/
def afterLengths (last : Bool) (c : Counts) (code : CodeTree) (done : List Nat) : Phase :=
  if done.length < c.literals + c.distances then lengths last c code done code
  else if done.length = c.literals + c.distances then
    let all := done.reverse
    match Codes.ofLengths? (all.take c.literals) (all.drop c.literals) with
    | some codes => elements last codes
    | none => failed
  else failed

/-- The phase after the lengths of the code for code lengths. -/
def afterLengthCode (last : Bool) (c : Counts) (described : List Nat) : Phase :=
  match completeTree? (lengthsInOrder described) with
  | some code => lengths last c code [] code
  | none => failed

/-- The numbers in a field of numbers of three bits. -/
def triples : List Bool → List Nat
  | a :: b :: c :: rest => fieldValue [c, b, a] :: triples rest
  | _ => []

/-- The phase after the symbol of a run of lengths. -/
def afterRun (last : Bool) (c : Counts) (code : CodeTree) (done : List Nat) :
    LengthRun → Phase
  | .one length => afterLengths last c code (length :: done)
  | .zeros times => lengthRun last c code done 0 times []
  | .again times =>
    match done with
    | previous :: _ => lengthRun last c code done previous times []
    | [] => failed

/-- The phase after the length of a copy is known. -/
def afterLength (last : Bool) (codes : Codes) (length : Nat) : Phase :=
  distance last codes length codes.distances

/-- What a bit leads to: the next phase, and bytes if it completes an element for some. -/
def step (p : Phase) (bit : Bool) : Phase × Option Emission :=
  match p with
  | header bits =>
    let bits := bit :: bits
    if bits.length < 3 then (header bits, none)
    else (afterHeader (fieldValue bits % 2 == 1) (fieldValue bits / 2), none)
  | storedLengths last bits =>
    let bits := bit :: bits
    if bits.length < 32 then (storedLengths last bits, none)
    else (afterStoredLengths last (fieldValue bits), none)
  | counts last bits =>
    let bits := bit :: bits
    if bits.length < 14 then (counts last bits, none)
    else
      let c := Counts.ofValue (fieldValue bits)
      if c.isLegal then (lengthCode last c [], none) else (failed, none)
  | lengthCode last c bits =>
    let bits := bit :: bits
    if bits.length < 3 * c.lengths then (lengthCode last c bits, none)
    else (afterLengthCode last c (triples bits.reverse), none)
  | lengths last c code done place =>
    match place.child bit with
    | .empty => (failed, none)
    | .leaf s => (afterRun last c code done (.ofSymbol s), none)
    | inner => (lengths last c code done inner, none)
  | lengthRun last c code done length times bits =>
    let bits := bit :: bits
    if bits.length < times.extraBits then (lengthRun last c code done length times bits, none)
    else
      (afterLengths last c code (List.replicate (times.base + fieldValue bits) length ++ done), none)
  | element last codes place =>
    match place.child bit with
    | .empty => (failed, none)
    | .leaf s =>
      match Element.ofSymbol? s with
      | some (.literal b) => (elements last codes, some (.literal b))
      | some .endOfBlock => (afterBlock last, none)
      | some (.copy length) =>
        if length.extraBits = 0 then (afterLength last codes length.base, none)
        else (copyLength last codes length [], none)
      | none => (failed, none)
    | inner => (element last codes inner, none)
  | copyLength last codes length bits =>
    let bits := bit :: bits
    if bits.length < length.extraBits then (copyLength last codes length bits, none)
    else (afterLength last codes (length.base + fieldValue bits), none)
  | distance last codes length place =>
    match place.child bit with
    | .empty => (failed, none)
    | .leaf s =>
      match copyDistances[s]? with
      | some d =>
        if d.extraBits = 0 then (elements last codes, some (.copy length d.base))
        else (copyDistance last codes length d [], none)
      | none => (failed, none)
    | inner => (distance last codes length inner, none)
  | copyDistance last codes length d bits =>
    let bits := bit :: bits
    if bits.length < d.extraBits then (copyDistance last codes length d bits, none)
    else (elements last codes, some (.copy length (d.base + fieldValue bits)))
  | stored .. | ended | failed => (p, none)

/-- The phase begins with a new byte: the bits that are left of the last one do not count. -/
def startsByte : Phase → Bool
  | storedLengths _ [] | stored .. | ended => true
  | _ => false

/-- No bit leads anywhere from here. -/
def isFinal : Phase → Bool
  | ended | failed => true
  | _ => false

end Phase

end Switchyard.Deflate
