import Switchyard.Web.Handshake
import Switchyard.Web.Page

/-!
# The web side

A request either asks for a channel, whatever its target, or for a page, whatever its method.
-/

namespace Switchyard

/-- What the web side does about a request. -/
inductive WebAnswer where
  | page (r : Response)
  | channel (h : Handshake)
  deriving DecidableEq, Repr

namespace WebAnswer

/-- The response of an answer. -/
def response : WebAnswer → Response
  | page r => r
  | channel h => h.response

/-- The answer to a request for a channel. -/
def toUpgrade (r : Request) : WebAnswer :=
  match Handshake.ofRequest? r with
  | some h => channel h
  | none => page Handshake.refusal

/-- The answer to a request. -/
def ofRequest (c : Config) (provider : List Char) (r : Request) : WebAnswer :=
  if r.asksForWebSocket then toUpgrade r else page (Page.ofTarget c provider r.target)

/-- A channel is opened, with or without compression. No channel can be opened for an old client. -/
def opens (a : WebAnswer) (version : HttpVersion) : Option Bool :=
  match a, version with
  | channel h, .http11 => some h.inflates
  | channel _, .http10 => none
  | page _, _ => none

end WebAnswer

end Switchyard
