import Switchyard.Text.Blank
import Switchyard.Text.Split
import Switchyard.Text.Numeral

/-!
# Negotiation of compression

A client offers extensions in the values of a header, between commas. An offer of
`permessage-deflate` is accepted when all its parameters are known, suit their names and do not
repeat. The answer names the extension and those parameters of the first acceptable offer that
concern the server (RFC 7692, section 7).
-/

namespace Switchyard.Extension

/-- The name of the extension. -/
def name : List Char := "permessage-deflate".toList

/-- A parameter of an offer. -/
inductive Parameter where
  | serverNoContextTakeover
  | clientNoContextTakeover
  | serverMaxWindowBits (bits : Nat)
  | clientMaxWindowBits (bits : Option Nat)
  deriving DecidableEq, Repr

/-- The lowercase name of a parameter. -/
def Parameter.name : Parameter → String
  | serverNoContextTakeover => "server_no_context_takeover"
  | clientNoContextTakeover => "client_no_context_takeover"
  | serverMaxWindowBits _ => "server_max_window_bits"
  | clientMaxWindowBits _ => "client_max_window_bits"

/-- A window size, as base-2 logarithm. -/
def windowBits? (cs : List Char) : Option Nat :=
  (Numeral.below? 16 cs).filter (8 ≤ ·)

/-- A value without white space and then without quotes around it. -/
def bareValue (cs : List Char) : List Char :=
  Text.trimBoth (· == '"') (Text.trim cs)

/-- The parameter with this lowercase name and this value. -/
def Parameter.ofParts? (name : List Char) (value : Option (List Char)) : Option Parameter :=
  if name = "server_no_context_takeover".toList then
    if value = none then some serverNoContextTakeover else none
  else if name = "client_no_context_takeover".toList then
    if value = none then some clientNoContextTakeover else none
  else if name = "server_max_window_bits".toList then
    (value.bind windowBits?).map serverMaxWindowBits
  else if name = "client_max_window_bits".toList then
    match value with
    | none => some (clientMaxWindowBits none)
    | some v => (windowBits? v).map fun bits => clientMaxWindowBits (some bits)
  else none

/-- Reads a parameter: a name, and perhaps an equals sign and a value. -/
def Parameter.parse? (cs : List Char) : Option Parameter :=
  match Text.splitFirst (· == '=') cs with
  | some (name, value) => ofParts? (Text.lower (Text.trim name)) (some (bareValue value))
  | none => ofParts? (Text.lower cs) none

/-- What the answer says about a parameter; nothing about those that concern the client. -/
def Parameter.answer? : Parameter → Option (List Char)
  | serverNoContextTakeover => some "server_no_context_takeover".toList
  | serverMaxWindowBits bits => some ("server_max_window_bits=".toList ++ Numeral.ofNat bits)
  | clientNoContextTakeover | clientMaxWindowBits _ => none

/-- The parameters of an acceptable offer. -/
def parameters? (offer : List Char) : Option (List Parameter) :=
  match (Text.splitAll (· == ';') offer).map Text.trim with
  | [] => none
  | head :: parts =>
    if Text.sameIgnoringCase head name then
      match (parts.filter (· ≠ [])).mapM Parameter.parse? with
      | some ps => if (ps.map Parameter.name).Nodup then some ps else none
      | none => none
    else none

/-- The answer to an acceptable offer with these parameters. -/
def answer (ps : List Parameter) : List Char :=
  List.intercalate "; ".toList (name :: ps.filterMap Parameter.answer?)

/-- The offers in the values of the header, in order. -/
def offers (values : List (List Char)) : List (List Char) :=
  values.flatMap (Text.splitAll (· == ','))

/-- The answer to the first acceptable offer. -/
def negotiate (values : List (List Char)) : Option (List Char) :=
  ((offers values).findSome? parameters?).map answer

end Switchyard.Extension
