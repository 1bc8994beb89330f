import Switchyard.Identity
import Switchyard.Tunnel.Header

/-!
# VLESS headers

A version byte, the user's UUID, a length byte and as many bytes of add-ons, a command byte, the
TCP number, the kind of address, the address, and the payload up to the end of the message. The
version, the add-ons and the command may be anything. `encode` writes such a message.
-/

namespace Switchyard.Vless

open Header

/-- The kinds of address in a VLESS header. -/
def kinds : AddressKinds := ⟨1, 2, 3⟩

/-- Reads a VLESS message of the user. -/
def request (id : Identity) : Reader TunnelRequest := do
  let _version ← byte
  let uuid ← bytes 16
  require (uuid == id.uuid) .unknownUser
  let addOns ← byte
  let _ ← bytes addOns.toNat
  let _command ← byte
  let tcp ← uint16
  let kind ← byte
  let host ← host kinds kind
  return ⟨.vless, host, tcp, ← rest⟩

/-- What a message asks for as VLESS. -/
def parse (id : Identity) (message : Bytes) : Except Refusal TunnelRequest :=
  run (request id) message

/-! ### Writing -/

/-- A host with its kind byte before it. -/
def encodeHost : Host → Bytes
  | .ipv4 octets => kinds.ipv4 :: octets
  | .domain name => kinds.domain :: UInt8.ofNat name.length :: name
  | .ipv6 octets => kinds.ipv6 :: octets

/-- The message of the user with the given free parts. -/
def encode (id : Identity) (version : UInt8) (addOns : Bytes) (command : UInt8) (host : Host)
    (tcp : UInt16) (payload : Bytes) : Bytes :=
  version :: id.uuid ++ UInt8.ofNat addOns.length :: addOns ++ command ::
    Bytes.ofNat 2 tcp.toNat ++ encodeHost host ++ payload

end Switchyard.Vless
