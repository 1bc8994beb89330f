import Switchyard.Http.Response

/-!
# Reading responses

What a client makes of the bytes of a response: the line of the status, the fields, and as many bytes
of body as the length field tells.
-/

namespace Switchyard

/-- A response as a client reads it. -/
structure Reply where
  statusLine : List Char
  /-- Names in lower case, and values. -/
  fields : List (List Char × List Char)
  body : Bytes
  deriving DecidableEq, Repr

namespace Reply

/-- The bytes before and after the first `sep`; those in `acc` stand before, last first. -/
def cutFrom (sep : Bytes) (acc : Bytes) : Bytes → Option (Bytes × Bytes)
  | [] => if sep = [] then some (acc.reverse, []) else none
  | b :: bs =>
    if sep.isPrefixOf (b :: bs) then some (acc.reverse, (b :: bs).drop sep.length)
    else cutFrom sep (b :: acc) bs

/-- The bytes before and after the first `sep`. -/
def cut (sep : Bytes) (bs : Bytes) : Option (Bytes × Bytes) :=
  cutFrom sep [] bs

/-- Reads a field. -/
def field? (line : List Char) : Option (List Char × List Char) :=
  (Text.splitFirst (· == ':') line).map fun (name, value) =>
    (Text.lower (Text.trim name), Text.trim value)

/-- The lines of a head. -/
def lines (head : Bytes) : List (List Char) :=
  (Text.splitAll (· == '\n') (Utf8.lossy head)).map (Text.trimBoth (· == '\r'))

/-- The length that the fields tell. -/
def lengthOf (fields : List (List Char × List Char)) : Nat :=
  ((fields.lookup "content-length".toList).bind (Numeral.digits? UInt64.size)).getD 0

/-- Reads a response off the front of a byte string, and tells what stands behind it. The response to
a request for the head alone has no body. -/
def read? (headOnly : Bool) (bs : Bytes) : Option (Reply × Bytes) :=
  match cut (Response.lineEnd ++ Response.lineEnd) bs with
  | none => none
  | some (head, rest) =>
    match lines head with
    | [] => none
    | statusLine :: lines =>
      let fields := lines.filterMap field?
      let n := if headOnly then 0 else lengthOf fields
      if rest.length < n then none
      else some (⟨statusLine, fields, rest.take n⟩, rest.drop n)

end Reply

end Switchyard
