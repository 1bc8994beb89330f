import Switchyard.Bytes

/-!
# Routes

The first byte of a connection decides where it goes: the letters with which the methods of HTTP
requests begin lead to the web side, every other byte to the fallback.
-/

namespace Switchyard

/-- Where a connection goes. -/
inductive Route where
  | web
  | fallback
  deriving DecidableEq, Repr

/-- The first letters of the methods GET, POST, PUT, PATCH, HEAD, DELETE, OPTIONS, CONNECT and
TRACE. -/
def Route.webLetters : List Char := ['G', 'P', 'H', 'D', 'O', 'C', 'T']

/-- The route of a connection that begins with this byte. -/
def Route.ofByte (b : UInt8) : Route :=
  if webLetters.any fun c => c.toNat == b.toNat then .web else .fallback

end Switchyard
