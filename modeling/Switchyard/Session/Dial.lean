import Switchyard.Address
import Switchyard.Stream.Script

/-!
# Dialing a destination

A host that is no address is looked up once; whatever the lookup gives is dialed, and there is one
attempt. The errors name what was dialed.
-/

namespace Switchyard

/-- What an attempt to connect comes to. -/
inductive Attempt where
  | connected (remote : Script)
  | refused (reason : List Char)
  | timedOut

/-- The network as a session sees it: name lookups, which always give something, and attempts to
connect. -/
structure Network where
  resolve : List Char → List Char
  connect : List Char → UInt16 → Attempt

/-- A network from which nothing can be reached. -/
def Network.unreachable (resolve : List Char → List Char) : Network where
  resolve
  connect _ _ := .refused "Network is unreachable (os error 101)".toList

/-- Why a destination cannot be reached. -/
inductive DialError where
  | refused (endpoint reason : List Char)
  | timedOut (endpoint : List Char) (seconds : UInt64)
  deriving DecidableEq, Repr

/-- The wording of an error. -/
def DialError.message : DialError → List Char
  | refused endpoint reason =>
    "connect to ".toList ++ endpoint ++ " failed: ".toList ++ reason
  | timedOut endpoint seconds =>
    "connect to ".toList ++ endpoint ++ " timed out after ".toList ++
      Numeral.ofNat seconds.toNat ++ ['s']

/-- What dialing comes to. -/
structure Dialed where
  /-- The names that were looked up. -/
  lookups : List (List Char)
  result : Except DialError Script

/-- What is dialed for a host: an address itself, and what the lookup gives for any other host. -/
def Network.target (net : Network) (host : List Char) : List Char :=
  if IpAddress.isLiteral host then host else net.resolve host

/-- Connects to a host, after a lookup if it is no address. -/
def Network.dial (net : Network) (timeout : UInt64) (host : List Char) (tcp : UInt16) : Dialed :=
  let target := net.target host
  let endpoint := target ++ ':' :: Numeral.ofNat tcp.toNat
  { lookups := if IpAddress.isLiteral host then [] else [host]
    result :=
      match net.connect target tcp with
      | .connected remote => .ok remote
      | .refused reason => .error (.refused endpoint reason)
      | .timedOut => .error (.timedOut endpoint timeout) }

end Switchyard
