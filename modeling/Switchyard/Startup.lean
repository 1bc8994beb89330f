import Switchyard.Config.Basic
import Switchyard.Log.Filter

/-!
# Starting the program

The program stops at once when its log cannot be filtered, when it is switched off, when it has no
user, or when it cannot be configured; otherwise it listens until it is interrupted. `Startup.plan`
decides which, and what the log shows of it.
-/

namespace Switchyard

/-- What a start comes to. -/
inductive Startup where
  /-- The program stops with an exit code. -/
  | stops (code : Nat) (log : List LogLine)
  /-- The program listens, after these lines; later ones pass the filter, too. -/
  | listens (config : Config) (filter : LogFilter) (log : List LogLine)

namespace Startup

/-- The exit code after an error in the command line; a wish for help is none. -/
def usageCode : UsageError → Nat
  | .help | .version => 0
  | _ => 2

/-- The exit code when the program breaks off. -/
def breakOffCode : Nat := 101

/-- What becomes of connections that are not HTTP. -/
def fallbackLine (c : Config) : LogLine :=
  match c.fallback with
  | some target => .info ("Non-HTTP traffic forwarded to ".toList ++ target)
  | none => .info "No fallback configured, non-HTTP connections will be closed".toList

/-- The lines before the program listens. -/
def listenLines (c : Config) : List LogLine :=
  [fallbackLine c,
    .info ("Listening on ".toList ++ c.listenIp.endpointText c.listenTcp),
    .info ("Subscription path: /".toList ++ c.subPath)]

/-- The line about a lookup of the provider that failed. -/
def lookupFailure (reason : List Char) : LogLine :=
  ⟨.warn, "muxtun::geoip".toList, "Failed to fetch ISP: ".toList ++ reason⟩

/-- The lines after an interrupt, when no session is open. -/
def shutdownLines : List LogLine :=
  [.info "Shutdown signal received".toList, .info "Server shutdown complete".toList]

/-- What the filter of the log, the settings and the properties file lead to. -/
def plan (filter : Option LogFilter) (settings : Except UsageError Settings)
    (properties : Option Bytes) : Startup :=
  match filter, settings with
  | none, _ => stops breakOffCode []
  | some _, .error e => stops (usageCode e) []
  | some filter, .ok settings =>
    if ¬ settings.enabled then
      stops 0 (filter.apply [.info "Tunnel endpoint disabled, exiting".toList])
    else if Text.trim settings.uuid = [] then
      stops 0 (filter.apply [.warn "No UUID configured, tunnel endpoint not started".toList])
    else
      match Config.make settings properties with
      | .error _ => stops 1 []
      | .ok config => listens config filter (filter.apply (listenLines config))

end Startup

end Switchyard
