import Switchyard.Json.Reader

/-!
# The provider's label

A service tells in which country the server stands and who provides its connection, in the members
`country_code` and `isp` of a JSON object or as an array of the two. Either may be null. The label
that links show joins both.
-/

namespace Switchyard

/-- What the service says about the server. -/
structure Provider where
  /-- The country. -/
  country : Option (List Char)
  /-- Who provides the connection. -/
  name : Option (List Char)
  deriving DecidableEq, Repr

namespace Provider

/-- The label while nothing is known. -/
def unknownLabel : List Char := "Unknown".toList

/-- The country while none is known. -/
def unknownCountry : List Char := "XX".toList

/-- The text that a value is; a value that is null or missing is none. -/
def optionalText? : Option Json → Option (Option (List Char))
  | none | some .null => some none
  | some j => (Json.text? j).map some

/-- What a JSON value says. -/
def ofJson? : Json → Option Provider
  | .object members =>
    if Json.keysReadable members then do
      let country ← optionalText? (← Json.single? "country_code".toList members)
      let name ← optionalText? (← Json.single? "isp".toList members)
      return ⟨country, name⟩
    else none
  | .array [country, name] => do
    return ⟨← optionalText? (some country), ← optionalText? (some name)⟩
  | _ => none

/-- What a body says. -/
def parse? (body : List Char) : Option Provider :=
  (Json.parse? body).bind ofJson?

/-- A name in which underscores stand for spaces. -/
def joined (name : List Char) : List Char :=
  name.map fun c => if c = ' ' then '_' else c

/-- The country and the provider, with a hyphen between them. -/
def label (p : Provider) : List Char :=
  p.country.getD unknownCountry ++ '-' :: (p.name.map joined).getD unknownLabel

end Provider

end Switchyard
