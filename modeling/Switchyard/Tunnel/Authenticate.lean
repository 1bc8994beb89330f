import Switchyard.Tunnel.Vless
import Switchyard.Tunnel.Trojan

/-!
# Authentication of the first message

A message is tried as VLESS if it is long enough and begins with version zero, and as Trojan if
that fails. Why a scheme refuses is not told to anyone.
-/

namespace Switchyard

/-- The length that a message has to exceed to be tried as VLESS: version and UUID. -/
def Vless.prologueLength : Nat := 17

/-- The request of a session's first message, if it carries the user's credentials. -/
def authenticate (id : Identity) (message : Bytes) : Option TunnelRequest :=
  let asTrojan := (Trojan.parse id message).toOption
  if Vless.prologueLength < message.length ∧ message.head? = some 0 then
    (Vless.parse id message).toOption.or asTrojan
  else asTrojan

end Switchyard
