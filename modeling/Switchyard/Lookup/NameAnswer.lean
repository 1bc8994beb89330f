import Switchyard.Address
import Switchyard.Json.Reader

/-!
# Answers to name lookups

The answer of a lookup service over HTTPS is a JSON object with the members `Status` and `Answer`;
each record of the answer has the members `type` and `data`. Other members do not count. In place of
either object its values may stand in an array, in that order. `firstAddress?` gives the data of the
first record that is an address.
-/

namespace Switchyard

/-- A record of an answer. -/
structure NameRecord where
  /-- The kind of the record. -/
  kind : Int
  /-- What the record says, as text. -/
  data : List Char
  deriving DecidableEq, Repr

/-- The answer to a lookup. -/
structure NameAnswer where
  /-- The response code; zero means success. -/
  status : Int
  /-- The records, in order. -/
  records : List NameRecord
  deriving DecidableEq, Repr

namespace NameRecord

/-- The kind of record that holds an IPv4 address. -/
def addressKind : Int := 1

/-- The kinds are numbers of 16 bits. -/
def kind? : Json → Option Int :=
  Json.integer? 0 0xffff

/-- The record that a JSON value describes. -/
def ofJson? : Json → Option NameRecord
  | .object members =>
    if Json.keysReadable members then do
      let kind ← kind? (← ← Json.single? "type".toList members)
      let data ← Json.text? (← ← Json.single? "data".toList members)
      return ⟨kind, data⟩
    else none
  | .array [kind, data] => do
    return ⟨← kind? kind, ← Json.text? data⟩
  | _ => none

end NameRecord

namespace NameAnswer

/-- The codes are signed numbers of 32 bits. -/
def status? : Json → Option Int :=
  Json.integer? (-0x80000000) 0x7fffffff

/-- The records that a JSON value lists; none are listed by a value that is missing. -/
def records? : Option Json → Option (List NameRecord)
  | none => some []
  | some (.array items) => items.mapM NameRecord.ofJson?
  | some _ => none

/-- The answer that a JSON value describes. -/
def ofJson? : Json → Option NameAnswer
  | .object members =>
    if Json.keysReadable members then do
      let status ← status? (← ← Json.single? "Status".toList members)
      let records ← records? (← Json.single? "Answer".toList members)
      return ⟨status, records⟩
    else none
  | .array [status] => do
    return ⟨← status? status, []⟩
  | .array [status, records] => do
    return ⟨← status? status, ← records? (some records)⟩
  | _ => none

/-- The answer that a body holds. -/
def parse? (body : List Char) : Option NameAnswer :=
  (Json.parse? body).bind ofJson?

/-- The data of the first record that is an address, if the lookup succeeded. -/
def address? (a : NameAnswer) : Option (List Char) :=
  if a.status = 0 then
    (a.records.find? fun r => r.kind == NameRecord.addressKind).map NameRecord.data
  else none

/-- The address in a body. -/
def firstAddress? (body : List Char) : Option (List Char) :=
  (parse? body).bind address?

/-- What a host resolves to, given what the service answers for it: an address is its own answer, and
so is a name for which the service has none. -/
def resolve (answer : List Char → Option (List Char)) (host : List Char) : List Char :=
  if IpAddress.isLiteral host then host
  else ((answer host).bind firstAddress?).getD host

end NameAnswer

end Switchyard
