import Switchyard.Http.Request

/-!
# Responses

A response is a status, what it says about the connection, other fields, and a body. What a client has
asked for is added before it is written (`Response.adapt`), and then it is known whether it is the last
one on its connection (`Response.isLast`). Each response but the one that ends HTTP tells the length of
its body: `lengthField_of_ne`.
-/

namespace Switchyard

/-- The outcome of a request. -/
inductive Status where
  | switchingProtocols
  | ok
  | badRequest
  | forbidden
  | notFound
  | targetTooLong
  | upgradeRequired
  | headTooLarge
  deriving DecidableEq, Repr

namespace Status

/-- The number of a status. -/
def code : Status → Nat
  | switchingProtocols => 101
  | ok => 200
  | badRequest => 400
  | forbidden => 403
  | notFound => 404
  | targetTooLong => 414
  | upgradeRequired => 426
  | headTooLarge => 431

/-- The words for a status. -/
def reason : Status → String
  | switchingProtocols => "Switching Protocols"
  | ok => "OK"
  | badRequest => "Bad Request"
  | forbidden => "Forbidden"
  | notFound => "Not Found"
  | targetTooLong => "URI Too Long"
  | upgradeRequired => "Upgrade Required"
  | headTooLarge => "Request Header Fields Too Large"

end Status

/-- What a response may say about the connection. -/
inductive ConnectionOption where
  | upgrade
  | close
  | keepAlive
  deriving DecidableEq, Repr

/-- The word for an option. -/
def ConnectionOption.word : ConnectionOption → String
  | upgrade => "Upgrade"
  | close => "close"
  | keepAlive => "keep-alive"

/-- A response. -/
structure Response where
  status : Status
  connection : List ConnectionOption
  /-- Names in lower case, and values. -/
  fields : List (String × List Char)
  body : Bytes
  deriving DecidableEq, Repr

/-- A text as the value of a field. Only visible characters can be sent. -/
def Http.sendable? (cs : List Char) : Option (List Char) :=
  if (Bytes.ofText cs).all isVisibleByte then some cs else none

namespace Response

/-- A response without a body. -/
def plain (status : Status) (fields : List (String × List Char)) : Response :=
  ⟨status, [], fields, []⟩

/-- The answer to a fault. -/
def ofFault : RequestFault → Response
  | .malformed => plain .badRequest []
  | .targetTooLong => plain .targetTooLong []
  | .headTooLarge => plain .headTooLarge []

/-- The response with an option, which it may have already. -/
def saying (r : Response) (option : ConnectionOption) : Response :=
  if option ∈ r.connection then r else { r with connection := r.connection ++ [option] }

/-- Adds what a client of this version has to know about the connection: an older one is told when it
stays open, a newer one when it does not. -/
def adapt (r : Response) (version : HttpVersion) (persistent : Bool) : Response :=
  match version with
  | .http10 => if persistent then r.saying .keepAlive else r
  | .http11 => if persistent then r else r.saying .close

/-- No other response follows. -/
def isLast (r : Response) (persistent : Bool) : Bool :=
  r.status = .switchingProtocols || !persistent || .close ∈ r.connection

/-- A success in answer to CONNECT would make the connection a tunnel and may not tell a length, so it
cannot be written. -/
def isWritable (r : Response) (method : List Char) : Bool :=
  !(method = "CONNECT".toList && r.status = .ok)

/-! ### Writing -/

/-- What is said about the connection. -/
def connectionField (r : Response) : List (String × List Char) :=
  if r.connection = [] then []
  else [("connection", List.intercalate ", ".toList (r.connection.map (·.word.toList)))]

/-- The length of the body. -/
def lengthField (r : Response) : List (String × List Char) :=
  if r.status = .switchingProtocols then []
  else [("content-length", Numeral.ofNat r.body.length)]

theorem lengthField_of_ne {r : Response} (h : r.status ≠ .switchingProtocols) :
    r.lengthField = [("content-length", Numeral.ofNat r.body.length)] := by
  simp [lengthField, h]

/-- All fields. -/
def allFields (r : Response) : List (String × List Char) :=
  r.fields ++ r.connectionField ++ r.lengthField

/-- The word for a version. -/
def versionWord : HttpVersion → String
  | .http10 => "HTTP/1.0"
  | .http11 => "HTTP/1.1"

/-- The line of a status. -/
def statusLine (status : Status) (version : HttpVersion) : List Char :=
  (versionWord version).toList ++ ' ' :: Numeral.ofNat status.code ++ ' ' :: status.reason.toList

/-- The end of a line. -/
def lineEnd : Bytes := [carriageReturn, lineFeed]

/-- A line of the head. -/
def line (cs : List Char) : Bytes :=
  Bytes.ofText cs ++ lineEnd

/-- The head. -/
def head (r : Response) (version : HttpVersion) : Bytes :=
  line (statusLine r.status version) ++
    r.allFields.flatMap (fun (name, value) => line (name.toList ++ ':' :: ' ' :: value)) ++ lineEnd

/-- A response to a request with this method; one to HEAD has no body. -/
def bytes (r : Response) (version : HttpVersion) (method : List Char) : Bytes :=
  r.head version ++ if method = "HEAD".toList then [] else r.body

end Response

end Switchyard
