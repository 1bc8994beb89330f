import Switchyard.Identity
import Switchyard.Tunnel.Header

/-!
# Trojan headers

The password in hexadecimal, a line end, the command 1, the kind of address, the address, the
TCP number, a line end, and the payload up to the end of the message. Either line end may be
missing. `encode` writes such a message.
-/

namespace Switchyard.Trojan

open Header

/-- The kinds of address in a Trojan header. -/
def kinds : AddressKinds := ⟨1, 3, 4⟩

/-- The command that asks for a connection. -/
def connectCommand : UInt8 := 1

/-- No message can be shorter. -/
def minimumLength : Nat := Identity.passwordLength + 2

/-- Reads a Trojan message of the user. -/
def request (id : Identity) : Reader TunnelRequest := do
  let password ← bytes Identity.passwordLength
  require (password == Bytes.ofText id.password) .wrongPassword
  skipLineEnd
  let command ← byte
  require (command == connectCommand) (.command command)
  let kind ← byte
  let host ← host kinds kind
  let tcp ← uint16
  skipLineEnd
  return ⟨.trojan, host, tcp, ← rest⟩

/-- What a message asks for as Trojan. -/
def parse (id : Identity) (message : Bytes) : Except Refusal TunnelRequest :=
  if message.length < minimumLength then .error (.truncated 0 minimumLength message.length)
  else run (request id) message

/-! ### Writing -/

/-- A host with its kind byte before it. -/
def encodeHost : Host → Bytes
  | .ipv4 octets => kinds.ipv4 :: octets
  | .domain name => kinds.domain :: UInt8.ofNat name.length :: name
  | .ipv6 octets => kinds.ipv6 :: octets

/-- The message of the user; `first` and `second` tell whether the line ends are written. -/
def encode (id : Identity) (first second : Bool) (host : Host) (tcp : UInt16)
    (payload : Bytes) : Bytes :=
  Bytes.ofText id.password ++ (if first then lineEnd else []) ++ connectCommand ::
    encodeHost host ++ Bytes.ofNat 2 tcp.toNat ++ (if second then lineEnd else []) ++ payload

end Switchyard.Trojan
