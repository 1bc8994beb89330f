import Switchyard.Config.CommandLine

/-!
# The settings of one run

Each setting takes its value from the command line, or else from the environment, or else is the
default. A variable that is set to the empty text is set: it is no number, switch or address.
-/

namespace Switchyard

/-- The settings as given, before they are checked against each other. -/
structure Settings where
  /-- Whether the program shall run at all. -/
  enabled : Bool
  /-- The UUID of the user. -/
  uuid : List Char
  /-- The domain that subscription links name. -/
  domain : List Char
  /-- The path that subscription links name, already encoded. -/
  wsPath : Option (List Char)
  /-- The path of the subscription. -/
  subPath : List Char
  /-- What stands before the provider's name in links. -/
  name : List Char
  /-- The TCP number to listen at. -/
  listenTcp : Option (List Char)
  /-- The address to listen at. -/
  listenIp : IpAddress
  /-- The host that links tell clients to dial. -/
  cdnHost : List Char
  /-- The TCP number there. -/
  cdnTcp : UInt16
  /-- Where connections go that are not HTTP. -/
  fallback : Option (List Char)
  /-- How many seconds a connect may take. -/
  connectTimeout : UInt64
  /-- How many seconds to wait for a first byte. -/
  sniffTimeout : UInt64
  /-- The service for name lookups. -/
  dohUrl : List Char
  /-- The service that names the provider. -/
  geoipUrl : List Char
  deriving DecidableEq

/-- The default of a setting that always has a value. -/
def Setting.default : Setting → String
  | enabled => "true"
  | uuid => "b64c9a01-3f09-4dea-a0f1-dc85e5a3ac19"
  | domain => "www.abc123.com"
  | subPath => "dc85e5a3ac19/sub"
  | name => "limbo"
  | listenIp => "0.0.0.0"
  | cdnHost => "cdns.doon.eu.org"
  | cdnTcp => "443"
  | connectTimeout => "10"
  | sniffTimeout => "0"
  | dohUrl => "https://dns.google/resolve"
  | geoipUrl => "https://api.ip.sb/geoip"
  | wsPath | listenTcp | fallback => ""

namespace Settings

/-- The settings whose values are given by `value?`; none if one does not suit. -/
def ofValues? (value? : Setting → Option (List Char)) : Option Settings := do
  let value (s : Setting) : List Char := (value? s).getD s.default.toList
  return {
    enabled := ← Setting.switch? (value .enabled)
    uuid := value .uuid
    domain := value .domain
    wsPath := value? .wsPath
    subPath := value .subPath
    name := value .name
    listenTcp := value? .listenTcp
    listenIp := ← IpAddress.parse? (value .listenIp)
    cdnHost := value .cdnHost
    cdnTcp := ← Setting.tcp? (value .cdnTcp)
    fallback := value? .fallback
    connectTimeout := ← Setting.seconds? (value .connectTimeout)
    sniffTimeout := ← Setting.seconds? (value .sniffTimeout)
    dohUrl := value .dohUrl
    geoipUrl := value .geoipUrl
  }

/-- The values of environment variables, by their names. -/
abbrev Environment := List Char → Option (List Char)

/-- The settings of a run with these arguments in this environment. -/
def read (args : List (List Char)) (env : Environment) : Except UsageError Settings := do
  let given ← CommandLine.read args
  match ofValues? fun s => (given.get? s).or (env s.variableName.toList) with
  | some settings => .ok settings
  | none => .error .unsuitableValue

end Settings

end Switchyard
