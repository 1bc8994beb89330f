import Switchyard.Digest.Sha1
import Switchyard.Http.Response
import Switchyard.Text.Base64
import Switchyard.WebSocket.Extension

/-!
# The opening handshake

A client asks for a WebSocket channel with fields of a request (RFC 6455, section 4). It is answered
with a digest of its key and with the extension that both sides then use; otherwise it is told which
version is spoken here, and may ask again.
-/

namespace Switchyard

/-- The client asks for a WebSocket channel. -/
def Request.asksForWebSocket (r : Request) : Bool :=
  (r.values "upgrade").any (Http.lists "websocket")

/-- A channel that is granted. -/
structure Handshake where
  /-- The digest of the client's key. -/
  accept : List Char
  /-- The extension in use. -/
  extension : Option (List Char)
  deriving DecidableEq, Repr

namespace Handshake

/-- The version of the protocol. -/
def version : List Char := "13".toList

/-- What is digested with every key. -/
def guid : Bytes :=
  Bytes.ofString "258EAFA5-E914-47DA-95CA-C5AB0DC85B11"

/-- The digest of a key. -/
def acceptKey (key : Bytes) : List Char :=
  Base64.encode (Sha1.digest (key ++ guid))

/-- The extension that the client is granted. -/
def extension? (r : Request) : Option (List Char) :=
  Extension.negotiate ((r.values "sec-websocket-extensions").filterMap Http.visible?)

/-- The channel that a request is granted. The first version and the first key count. -/
def ofRequest? (r : Request) : Option Handshake :=
  if r.method = "GET".toList ∧
      (r.values "sec-websocket-version").head? = some (Bytes.ofText version) then
    (r.values "sec-websocket-key").head?.map fun key => ⟨acceptKey key, extension? r⟩
  else none

/-- The answer that grants a channel. What cannot be sent is left out. -/
def response (h : Handshake) : Response where
  status := .switchingProtocols
  connection := [.upgrade]
  fields :=
    ("upgrade", "websocket".toList) ::
      (((Http.sendable? h.accept).map fun text => ("sec-websocket-accept", text)).toList ++
        ((h.extension.bind Http.sendable?).map fun text =>
          ("sec-websocket-extensions", text)).toList)
  body := []

/-- The answer that grants none. -/
def refusal : Response :=
  .plain .upgradeRequired [("sec-websocket-version", version)]

/-- The client may send compressed messages. -/
def inflates (h : Handshake) : Bool :=
  h.extension.isSome

end Handshake

end Switchyard
