import Switchyard.Address
import Switchyard.Text.Utf8

/-!
# Tunnel requests

The first binary message of a session asks for a connection. It comes in one of two schemes, VLESS
or Trojan, and names a host, a TCP number and the first bytes to send there. `Refusal` says why a
message does not fit a scheme.
-/

namespace Switchyard

/-- The header formats that a client may use. -/
inductive Scheme where
  | vless
  | trojan
  deriving DecidableEq, Repr

/-- The host a request names: the bytes of an address, or those of a name. -/
inductive Host where
  | ipv4 (octets : Bytes)
  | domain (name : Bytes)
  | ipv6 (octets : Bytes)
  deriving DecidableEq, Repr

/-- The groups of two octets. -/
def Host.groups : Bytes → List UInt16
  | hi :: lo :: rest => IpAddress.groupOf hi lo :: Host.groups rest
  | _ => []

/-- The text of a host: addresses in full, names as UTF-8 with broken parts replaced. -/
def Host.text : Host → List Char
  | ipv4 octets => IpAddress.dotted octets
  | domain name => Utf8.lossy name
  | ipv6 octets => IpAddress.colonSeparated (Host.groups octets)

/-- What an accepted message asks for. -/
structure TunnelRequest where
  /-- The scheme that the message fits. -/
  scheme : Scheme
  /-- The host to connect to. -/
  host : Host
  /-- The TCP number on that host. -/
  tcp : UInt16
  /-- The first bytes to send there. -/
  payload : Bytes
  deriving DecidableEq, Repr

/-- What the server answers before any relayed byte, to a message that began with `version`. -/
def TunnelRequest.reply (r : TunnelRequest) (version : UInt8) : Option Bytes :=
  match r.scheme with
  | .vless => some [version, 0]
  | .trojan => none

/-- Why a message does not fit a scheme. -/
inductive Refusal where
  /-- A part of `need` bytes begins at `offset`, where only `left` bytes remain. -/
  | truncated (offset need left : Nat)
  /-- The message carries another user's UUID. -/
  | unknownUser
  /-- The message does not begin with the password. -/
  | wrongPassword
  /-- The command is not the one that asks for a connection. -/
  | command (byte : UInt8)
  /-- The scheme has no such kind of address. -/
  | addressKind (byte : UInt8)
  deriving DecidableEq, Repr

/-- The wording of a refusal. -/
def Refusal.message : Refusal → String
  | truncated offset need left =>
    s!"header truncated: need {need} bytes at offset {offset}, have {left}"
  | unknownUser => "unknown user id"
  | wrongPassword => "password hash mismatch"
  | command byte => "unsupported command 0x" ++ String.ofList (Hex.ofByte byte)
  | addressKind byte => s!"unsupported address type {byte.toNat}"

end Switchyard
