import Switchyard.Session.Session
import Switchyard.Tally

/-!
# Sessions in their slots

A slot is taken by a guard. A session has one from its creation on, and the guard goes with the
session: when that has ended, however it did, or is dropped before, the slot is given back. A guard
may also be created by itself, and be told to release its slot before it is dropped.
`Roster.turn` goes on with a session and lets go of its slot at the end.
-/

namespace Switchyard

namespace Session

/-- Nothing more will be done. -/
def isEnded : Session → Bool
  | .ended .. => true
  | .awaiting _ | .answering .. | .flushing .. | .dialing .. | .forwarding .. | .relaying .. => false

end Session

/-- What a slot was taken for. -/
inductive Holder where
  /-- A guard that was created by itself. -/
  | guard
  | session (s : Session)
  /-- What there was has been dropped. -/
  | dropped

/-- All that have taken a slot, in the order in which they did, and the count of slots. -/
structure Roster where
  holders : List Holder
  tally : Tally

namespace Roster

/-- Nothing that is known of has a slot; so many are taken all the same. -/
def start (active : UInt64) : Roster :=
  ⟨[], { Tally.zero with active }⟩

/-- A guard is created. -/
def guard (r : Roster) : Roster :=
  ⟨r.holders ++ [.guard], r.tally.take⟩

/-- A session is created, and its guard with it. -/
def enter (c : Channel) (r : Roster) : Roster :=
  ⟨r.holders ++ [.session (.awaiting c)], r.tally.take⟩

/-- The guard of slot `i` releases it. -/
def release (i : Nat) (r : Roster) : Roster :=
  { r with tally := r.tally.giveBack i }

/-- What has slot `i` is dropped, and so is its guard. -/
def drop (i : Nat) (r : Roster) : Roster :=
  { r.release i with holders := r.holders.set i .dropped }

/-- The session in slot `i` comes to stand otherwise. Its guard is dropped when it has ended. -/
def settle (i : Nat) (s : Session) (r : Roster) : Roster :=
  let r := { r with holders := r.holders.set i (.session s) }
  if s.isEnded then r.release i else r

/-- Goes on with the session in slot `i`, if it stands at a stage. -/
def turn (id : Identity) (timeout : UInt64) (net : Network) (t : Session.Task) (i : Nat)
    (r : Roster) : Roster :=
  match r.holders[i]? with
  | some (.session s) => r.settle i (s.turn id timeout net t)
  | _ => r

end Roster

end Switchyard
