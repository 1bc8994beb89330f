import Switchyard.Text.Split
import Switchyard.Text.Numeral
import Switchyard.Bytes

/-!
# IP addresses and their texts

An IPv4 address is written as four decimal numbers without leading zeros. An IPv6 address is
written as eight hexadecimal groups; two colons may stand for one or more groups of zeros, and the
last two groups may be written as an IPv4 address. `parse?` reads both forms. `text` writes the
canonical one: the longest run of zero groups is left out, and an IPv4-mapped address ends in
dotted form. A host is a literal, one that no name lookup concerns, when `parse?` reads it.
-/

namespace Switchyard

/-- An IP address: the four octets of IPv4 or the eight groups of IPv6. -/
inductive IpAddress where
  | v4 (octets : List UInt8) (length_eq : octets.length = 4)
  | v6 (groups : List UInt16) (length_eq : groups.length = 8)
  deriving DecidableEq

namespace IpAddress

/-- The number in base 256 of two octets. -/
def groupOf (hi lo : UInt8) : UInt16 :=
  UInt16.ofNat (256 * hi.toNat + lo.toNat)

/-! ### Reading -/

/-- The value of a decimal octet without leading zeros. -/
def octet? (cs : List Char) : Option UInt8 :=
  if cs.head? = some '0' ∧ 1 < cs.length then none
  else (Numeral.digits? 256 cs).map UInt8.ofNat

/-- The octets of the dotted form. -/
def octets? (cs : List Char) : Option (List UInt8) :=
  let pieces := Text.splitAll (· == '.') cs
  if pieces.length = 4 then pieces.mapM octet? else none

/-- The value of a group of one to four hexadecimal digits. -/
def group? (cs : List Char) : Option UInt16 :=
  if 1 ≤ cs.length ∧ cs.length ≤ 4 then
    (cs.mapM Hex.value?).map fun ds => UInt16.ofNat (ds.foldl (fun n d => 16 * n + d) 0)
  else none

/-- The two groups that an address in dotted form writes. -/
def dottedGroups? (cs : List Char) : Option (List UInt16) :=
  match octets? cs with
  | some [a, b, c, d] => some [groupOf a b, groupOf c d]
  | _ => none

/-- The groups of the pieces between colons; the last piece may have dotted form. -/
def groups? : List (List Char) → Option (List UInt16)
  | [] => some []
  | [last] => ((group? last).map ([·])).or (dottedGroups? last)
  | piece :: pieces => do
    let g ← group? piece
    let gs ← groups? pieces
    return g :: gs

/-- The pieces between colons; none in an empty text. -/
def pieces (cs : List Char) : List (List Char) :=
  if cs = [] then [] else Text.splitAll (· == ':') cs

/-- The text before and after the first pair of colons. -/
def splitGap : List Char → Option (List Char × List Char)
  | ':' :: ':' :: rest => some ([], rest)
  | c :: rest => (splitGap rest).map fun (before, after) => (c :: before, after)
  | [] => none

/-- The groups that a text with or without a gap writes. Dotted form cannot precede the gap. -/
def v6Groups? (cs : List Char) : Option (List UInt16) :=
  match splitGap cs with
  | none => groups? (pieces cs)
  | some (before, after) => do
    let gs ← (pieces before).mapM group?
    let hs ← groups? (pieces after)
    if gs.length + hs.length < 8 then
      return gs ++ List.replicate (8 - gs.length - hs.length) 0 ++ hs
    else none

/-- The address that a text writes in dotted form. -/
def parseV4? (cs : List Char) : Option IpAddress :=
  match octets? cs with
  | some octets => if h : octets.length = 4 then some (.v4 octets h) else none
  | none => none

/-- The address that a text writes in groups. -/
def parseV6? (cs : List Char) : Option IpAddress :=
  match v6Groups? cs with
  | some groups => if h : groups.length = 8 then some (.v6 groups h) else none
  | none => none

/-- The address that a text writes. -/
def parse? (cs : List Char) : Option IpAddress :=
  (parseV4? cs).or (parseV6? cs)

/-- The text is an address and no name. -/
def isLiteral (cs : List Char) : Bool :=
  (parse? cs).isSome

/-! ### Writing -/

/-- Decimal octets between dots. -/
def dotted (octets : List UInt8) : List Char :=
  List.intercalate ['.'] (octets.map fun b => Numeral.ofNat b.toNat)

/-- A group in lowercase hexadecimal, without leading zeros. -/
def groupText (g : UInt16) : List Char :=
  Nat.toDigits 16 g.toNat

/-- Groups between colons, also those that are zero. -/
def colonSeparated (groups : List UInt16) : List Char :=
  List.intercalate [':'] (groups.map groupText)

/-- Where the first of the longest runs of zero groups begins, and its length. -/
def longestZeroRun (groups : List UInt16) : Nat × Nat :=
  (List.range groups.length).foldl
    (fun best i =>
      let n := ((groups.drop i).takeWhile (· == 0)).length
      if best.2 < n then (i, n) else best)
    (0, 0)

/-- Groups between colons, with the longest run of at least two zero groups left out. -/
def compressed (groups : List UInt16) : List Char :=
  let (start, n) := longestZeroRun groups
  if 1 < n then
    colonSeparated (groups.take start) ++ "::".toList ++ colonSeparated (groups.drop (start + n))
  else colonSeparated groups

/-- The two octets of a group. -/
def groupOctets (g : UInt16) : List UInt8 :=
  Bytes.ofNat 2 g.toNat

/-- The canonical text of an address. -/
def text : IpAddress → List Char
  | v4 octets _ => dotted octets
  | v6 groups _ =>
    if groups.take 6 = [0, 0, 0, 0, 0, 0xffff] then
      "::ffff:".toList ++ dotted ((groups.drop 6).flatMap groupOctets)
    else compressed groups

/-- The text of an address and a TCP number on it; an IPv6 address stands in brackets. -/
def endpointText (a : IpAddress) (tcp : UInt16) : List Char :=
  match a with
  | v4 .. => a.text ++ ':' :: Numeral.ofNat tcp.toNat
  | v6 .. => '[' :: a.text ++ ']' :: ':' :: Numeral.ofNat tcp.toNat

end IpAddress

end Switchyard
