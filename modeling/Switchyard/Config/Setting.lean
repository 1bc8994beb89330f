import Switchyard.Address
import Switchyard.Text.Blank

/-!
# The settings of the program

Every setting has an option on the command line and a variable in the environment, and most have a
default. Values are texts; `Setting.accepts` tells which texts a setting takes. A value for a switch
is one of the usual words for yes and no, in any case.
-/

namespace Switchyard

/-- What can be set. -/
inductive Setting where
  | enabled
  | uuid
  | domain
  | wsPath
  | subPath
  | name
  | listenTcp
  | listenIp
  | cdnHost
  | cdnTcp
  | fallback
  | connectTimeout
  | sniffTimeout
  | dohUrl
  | geoipUrl
  deriving DecidableEq, Repr

namespace Setting

/-- All settings, in the order of their documentation. -/
def all : List Setting :=
  [enabled, uuid, domain, wsPath, subPath, name, listenTcp, listenIp, cdnHost, cdnTcp, fallback,
    connectTimeout, sniffTimeout, dohUrl, geoipUrl]

/-- The name of the option, without the hyphens before it. -/
def optionName : Setting → String
  | enabled => "enabled"
  | uuid => "uuid"
  | domain => "domain"
  | wsPath => "ws-path"
  | subPath => "sub-path"
  | name => "name"
  | listenTcp => "port"
  | listenIp => "listen-ip"
  | cdnHost => "cdn-host"
  | cdnTcp => "cdn-port"
  | fallback => "fallback"
  | connectTimeout => "connect-timeout"
  | sniffTimeout => "sniff-timeout"
  | dohUrl => "doh-url"
  | geoipUrl => "geoip-url"

/-- The name of the environment variable. -/
def variableName : Setting → String
  | enabled => "WS_ENABLED"
  | uuid => "WS_UUID"
  | domain => "WS_DOMAIN"
  | wsPath => "WS_PATH"
  | subPath => "WS_SUB_PATH"
  | name => "WS_NAME"
  | listenTcp => "PORT"
  | listenIp => "WS_LISTEN_IP"
  | cdnHost => "WS_CDN_HOST"
  | cdnTcp => "WS_CDN_PORT"
  | fallback => "WS_FALLBACK"
  | connectTimeout => "WS_CONNECT_TIMEOUT"
  | sniffTimeout => "WS_SNIFF_TIMEOUT"
  | dohUrl => "WS_DOH_URL"
  | geoipUrl => "WS_GEOIP_URL"

/-- The setting of a long option. -/
def ofOptionName? (cs : List Char) : Option Setting :=
  all.find? fun s => s.optionName.toList == cs

/-- The setting of an option of one letter. -/
def ofLetter? (c : Char) : Option Setting :=
  if c = 'p' then some listenTcp else none

/-! ### Values that are not plain texts -/

/-- The words for yes. -/
def yesWords : List String := ["y", "yes", "t", "true", "on", "1"]

/-- The words for no. -/
def noWords : List String := ["n", "no", "f", "false", "off", "0"]

/-- A switch. -/
def switch? (cs : List Char) : Option Bool :=
  if yesWords.any fun w => w.toList == Text.lower cs then some true
  else if noWords.any fun w => w.toList == Text.lower cs then some false
  else none

/-- A signed numeral for a 16-bit number; only zero may have a minus sign. -/
def tcp? : List Char → Option UInt16
  | '-' :: cs => (Numeral.digits? 1 cs).map UInt16.ofNat
  | cs => Numeral.uint16? cs

/-- A number of seconds of 64 bits. -/
def seconds? (cs : List Char) : Option UInt64 :=
  (Numeral.below? UInt64.size cs).map UInt64.ofNat

/-- Is a value for the setting. -/
def accepts (s : Setting) (value : List Char) : Bool :=
  match s with
  | enabled => (switch? value).isSome
  | listenIp => (IpAddress.parse? value).isSome
  | cdnTcp => (tcp? value).isSome
  | connectTimeout | sniffTimeout => (seconds? value).isSome
  | _ => true

end Setting

end Switchyard
