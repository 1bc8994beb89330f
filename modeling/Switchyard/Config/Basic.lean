import Switchyard.Config.Settings
import Switchyard.Config.Properties
import Switchyard.Identity
import Switchyard.Text.FormUrl
import Switchyard.Text.Quoted

/-!
# The configuration of the program

What the settings and the properties file amount to: an identity instead of a text, defaults that
depend on other settings, and limits instead of numbers of seconds. Once made it does not change.
-/

namespace Switchyard

/-- The configuration of a run. -/
structure Config where
  /-- The user of the tunnel. -/
  identity : Identity
  /-- The domain that subscription links name. -/
  domain : List Char
  /-- The path that subscription links name, already encoded. -/
  wsPath : List Char
  /-- The path of the subscription, without a slash before it. -/
  subPath : List Char
  /-- What stands before the provider's name in links. -/
  name : List Char
  /-- The address to listen at. -/
  listenIp : IpAddress
  /-- The TCP number to listen at. -/
  listenTcp : UInt16
  /-- The host that links tell clients to dial. -/
  cdnHost : List Char
  /-- The TCP number there. -/
  cdnTcp : UInt16
  /-- Where connections go that are not HTTP; they are closed when this is unset. -/
  fallback : Option (List Char)
  /-- How many seconds a connect may take. -/
  connectTimeout : UInt64
  /-- How many seconds to wait for a first byte; no limit when this is unset. -/
  sniffTimeout : Option UInt64
  /-- The service for name lookups. -/
  dohUrl : List Char
  /-- The service that names the provider. -/
  geoipUrl : List Char
  deriving DecidableEq

/-- Why settings are no configuration. -/
inductive ConfigError where
  /-- The user's text is no UUID. -/
  | invalidUuid (value : List Char)
  /-- The fallback is no host and TCP number. -/
  | invalidFallback (value : List Char)
  deriving DecidableEq, Repr

namespace ConfigError

/-- The text that was read in vain. White space around a UUID is left out. -/
def subject : ConfigError → List Char
  | invalidUuid value => Text.trim value
  | invalidFallback value => value

/-- The wording of an error, with what the UUID reader has to say against a text. -/
def message (complaint : List Char → List Char) (e : ConfigError) : List Char :=
  match e with
  | invalidUuid value =>
    "Invalid --uuid ".toList ++ Text.quoted value ++ ": ".toList ++ complaint e.subject
  | invalidFallback value =>
    "Invalid --fallback ".toList ++ Text.quoted value ++ ", expected host:port".toList

end ConfigError

namespace Config

/-- The value unless it is blank. -/
def nonBlank (value : Option (List Char)) : Option (List Char) :=
  value.filter fun cs => Text.trim cs ≠ []

/-- How many characters of the UUID the default path shows. -/
def tokenLength : Nat := 8

/-- What the default path of a user encodes. -/
def rawWsPath (uuid : List Char) : List Char :=
  "api/v1/user?token=".toList ++ uuid.take tokenLength ++ "&lang=en".toList

/-- The path that links name when none is set. -/
def defaultWsPath (uuid : List Char) : List Char :=
  FormUrl.encode (Bytes.ofText (rawWsPath uuid))

/-- Ends in a colon and a TCP number. -/
def isEndpoint (cs : List Char) : Bool :=
  match Text.splitLast (· == ':') cs with
  | some (_, tcp) => (Numeral.uint16? tcp).isSome
  | none => false

/-- The configuration that the settings and the properties file amount to. -/
def make (s : Settings) (properties : Option Bytes) : Except ConfigError Config :=
  match Identity.parse? s.uuid with
  | none => .error (.invalidUuid s.uuid)
  | some identity =>
    let config : Config := {
      identity
      domain := s.domain
      wsPath := (nonBlank s.wsPath).getD (defaultWsPath s.uuid)
      subPath := s.subPath.dropWhile (· == '/')
      name := s.name
      listenIp := s.listenIp
      listenTcp := Properties.resolve (nonBlank s.listenTcp) properties
      cdnHost := s.cdnHost
      cdnTcp := s.cdnTcp
      fallback := nonBlank s.fallback
      connectTimeout := max s.connectTimeout 1
      sniffTimeout := if s.sniffTimeout = 0 then none else some s.sniffTimeout
      dohUrl := s.dohUrl
      geoipUrl := s.geoipUrl
    }
    match config.fallback with
    | some value => if isEndpoint value then .ok config else .error (.invalidFallback value)
    | none => .ok config

/-- Why a run has no configuration. -/
inductive LoadError where
  | usage (e : UsageError)
  | config (e : ConfigError)
  deriving DecidableEq, Repr

/-- The configuration of a run with these settings, and whether it is wanted at all. -/
def load (settings : Except UsageError Settings) (properties : Option Bytes) :
    Except LoadError (Bool × Config) :=
  match settings with
  | .error e => .error (.usage e)
  | .ok s =>
    match make s properties with
    | .error e => .error (.config e)
    | .ok c => .ok (s.enabled, c)

end Config

end Switchyard
