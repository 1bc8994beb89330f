import Switchyard.Stream.Prefixed
import Switchyard.Stream.Route

/-!
# Sniffing

The first bytes of a connection are read to find its route. They are put back, so whoever gets the
stream sees it from its first byte on.
-/

namespace Switchyard

/-- What sniffing a stream comes to. -/
inductive Sniffed (σ : Type) where
  /-- Nothing has arrived yet. -/
  | waiting (stream : σ)
  /-- The stream ended before its first byte. -/
  | closed
  /-- The stream failed before its first byte. -/
  | failed (e : StreamError)
  /-- The route, and the stream from its first byte on. -/
  | routed (route : Route) (stream : PrefixedStream σ)

/-- How many bytes are read to find the route. -/
def sniffSize : Nat := 4096

/-- Reads the first bytes of a stream and decides where it goes. -/
def sniff {σ : Type} [ByteStream σ] (stream : σ) : Sniffed σ :=
  match ByteStream.read sniffSize stream with
  | (.pending, stream) => .waiting stream
  | (.failed e, _) => .failed e
  | (.ready [], _) => .closed
  | (.ready (b :: bs), stream) => .routed (.ofByte b) ⟨b :: bs, stream⟩

end Switchyard
