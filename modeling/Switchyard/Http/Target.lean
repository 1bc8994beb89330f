import Switchyard.Http.Scan

/-!
# Request targets

A target is a path, an asterisk, an authority, or a whole address with a scheme (RFC 9112,
section 3.2). Only the path matters here; it is kept with its query and without a fragment.
-/

namespace Switchyard

/-- What a request is about. -/
inductive Target where
  /-- A path that begins with a slash, and the query behind it. -/
  | path (bs : Bytes)
  | asterisk
  | authority
  | absolute
  deriving DecidableEq, Repr

namespace Target

/-- Has one of the codes of the characters. -/
def isOneOf (cs : String) (b : UInt8) : Bool :=
  cs.toList.any fun c => c.toNat == b.toNat

/-- The byte is an ASCII letter or digit. -/
def isAlphanumByte (b : UInt8) : Bool :=
  (Char.ofNat b.toNat).isAlphanum

/-- The bytes of a path. -/
def isPathByte (b : UInt8) : Bool :=
  0x7F ≤ b || (isTargetByte b && !isOneOf "#<>?\x60" b)
where
  isTargetByte (b : UInt8) : Bool := 0x21 ≤ b && b ≤ 0x7E

/-- The bytes of a query. -/
def isQueryByte (b : UInt8) : Bool :=
  0x21 ≤ b && !isOneOf "\x22#<>" b

/-- A path or a query ends here. -/
def isEmptyOrFragment : Bytes → Bool
  | [] => true
  | b :: _ => isOneOf "#" b

/-- A path, perhaps with a query and a fragment. -/
def isPathAndQuery (bs : Bytes) : Bool :=
  match bs.dropWhile isPathByte with
  | [] => true
  | b :: rest =>
    isOneOf "#" b || (isOneOf "?" b && isEmptyOrFragment (rest.dropWhile isQueryByte))

/-- The bytes before a fragment. -/
def withoutFragment (bs : Bytes) : Bytes :=
  bs.takeWhile fun b => !isOneOf "#" b

/-! ### Authorities -/

/-- The bytes of an authority, besides those that are watched. -/
def isAuthorityByte (b : UInt8) : Bool :=
  isAlphanumByte b || isOneOf "!$&\x27()*+,-.;=_~" b

/-- What has been seen of an authority. -/
structure AuthorityScan where
  /-- Colons since the last at sign or closing bracket. -/
  colons : Nat
  opened : Bool
  closed : Bool
  /-- A percent sign since the last at sign or closing bracket. -/
  percent : Bool
  /-- The last byte was an at sign. -/
  atSign : Bool

/-- Takes in a byte of an authority. -/
def AuthorityScan.step (s : AuthorityScan) (b : UInt8) : Option AuthorityScan :=
  let s' := { s with atSign := false }
  if isOneOf ":" b then
    if 8 ≤ s.colons then none else some { s' with colons := s.colons + 1 }
  else if isOneOf "[" b then
    if s.percent || s.opened then none else some { s' with opened := true }
  else if isOneOf "]" b then
    if !s.opened || s.closed then none
    else some { s' with closed := true, colons := 0, percent := false }
  else if isOneOf "@" b then some { s with atSign := true, colons := 0, percent := false }
  else if isOneOf "%" b then some { s' with percent := true }
  else if isAuthorityByte b then some s'
  else none

/-- An authority: perhaps a user, a host, and perhaps a number behind a colon. -/
def isAuthority (bs : Bytes) : Bool :=
  match bs.foldlM AuthorityScan.step ⟨0, false, false, false, false⟩ with
  | some s => s.opened == s.closed && s.colons ≤ 1 && !s.percent && !s.atSign
  | none => false

/-- An authority ends before this byte. -/
def endsAuthority (b : UInt8) : Bool :=
  isOneOf "/?#" b

/-! ### Schemes -/

/-- The bytes of a scheme. -/
def isSchemeByte (b : UInt8) : Bool :=
  isAlphanumByte b || isOneOf "+-.~" b

/-- The longest scheme. -/
def maxScheme : Nat := 64

/-- The scheme of an address with one, and what stands behind the two slashes. -/
def splitScheme (bs : Bytes) : Option (Bytes × Bytes) :=
  match bs.dropWhile isSchemeByte with
  | c :: s₁ :: s₂ :: rest =>
    if isOneOf ":" c && isOneOf "/" s₁ && isOneOf "/" s₂ then
      some (bs.takeWhile isSchemeByte, rest)
    else none
  | _ => none

/-- What stands behind a scheme: an authority that is not empty, and a path or query. -/
def isSchemeless (bs : Bytes) : Bool :=
  let authority := bs.takeWhile fun b => !endsAuthority b
  authority ≠ [] && isAuthority authority && isPathAndQuery (bs.drop authority.length)

/-- Reads a target. -/
def ofBytes? (bs : Bytes) : Option Target :=
  match bs with
  | [] => none
  | b :: _ =>
    if isOneOf "/" b then
      if isPathAndQuery bs then some (path (withoutFragment bs)) else none
    else if bs = Bytes.ofString "*" then some asterisk
    else
      match splitScheme bs with
      | some (scheme, rest) =>
        if scheme.length ≤ maxScheme && isSchemeless rest then some absolute else none
      | none => if isAuthority bs then some authority else none

end Target

end Switchyard
