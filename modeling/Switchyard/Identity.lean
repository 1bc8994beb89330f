import Switchyard.Text.Blank
import Switchyard.Digest.Sha224
import Switchyard.Uuid

/-!
# The identity of the tunnel's user

One configured text gives both credentials: the bytes of the UUID it spells, which VLESS requests
carry, and the SHA-224 digest of the text itself in hexadecimal, which is the Trojan password. White
space around the text does not count. Another spelling of the same UUID keeps the bytes and changes
the password.
-/

namespace Switchyard

/-- The credentials that a client may present. -/
structure Identity where
  /-- The configured text, without white space around it. -/
  text : List Char
  /-- The bytes of the UUID that the text spells. -/
  uuid : Bytes
  uuid_eq : Uuid.parse? text = some uuid
  deriving DecidableEq

namespace Identity

/-- The identity for a configured text; none unless it spells a UUID. -/
def parse? (configured : List Char) : Option Identity :=
  match h : Uuid.parse? (Text.trim configured) with
  | some uuid => some ⟨Text.trim configured, uuid, h⟩
  | none => none

/-- The Trojan password: the SHA-224 digest of the text as written, in hexadecimal. -/
def password (id : Identity) : List Char :=
  Hex.encode (Sha224.digest (Bytes.ofText id.text))

/-- How many characters every password has. -/
def passwordLength : Nat := 56

@[simp] theorem length_password (id : Identity) : id.password.length = passwordLength := by
  simp [password, Hex.length_encode, passwordLength]

@[simp] theorem length_uuid (id : Identity) : id.uuid.length = 16 :=
  Uuid.length_of_parse? id.uuid_eq

end Identity

end Switchyard
