import Switchyard.Connection.Rehearsal
import Switchyard.Proofs.Stream.Acts

/-!
# What clients do

A client in memory makes its moves one after the other: it sends bytes in parts of any size, ends its
side, goes away, breaks the wire, takes what was written for it, or lets time pass. The program goes on
when the client waits. A list of moves says what was sent, whether the client has ended or failed, and
how much time has passed.

Whoever is given a client's stream acts on it while the client makes further moves. Whatever the order,
the bytes that reads give and those still to be read are all bytes that the client has sent.
-/

namespace Switchyard

/-- What a client does. -/
inductive ClientMove where
  | send (bs : Bytes)
  /-- It sends nothing more. -/
  | finish
  | hangUp
  /-- The next read fails. -/
  | fail (e : StreamError)
  /-- It takes some of the bytes that were written for it. -/
  | take (n : Nat)
  /-- It waits for some milliseconds. -/
  | wait (ms : Nat)
  deriving DecidableEq, Repr

namespace ClientMove

def bytes : ClientMove → Bytes
  | send bs => bs
  | _ => []

/-- The move is the last to send anything. -/
def ends : ClientMove → Bool
  | finish | hangUp => true
  | _ => false

def fails : ClientMove → Bool
  | fail _ => true
  | _ => false

def time : ClientMove → Nat
  | wait ms => ms
  | _ => 0

/-- All bytes that the moves send before the client ends. -/
def sent (moves : List ClientMove) : Bytes :=
  (moves.takeWhile (!·.ends)).flatMap bytes

def ended (moves : List ClientMove) : Bool :=
  moves.any ends

def failed (moves : List ClientMove) : Bool :=
  moves.any fails

/-- The time that the moves take together. -/
def elapsed : List ClientMove → Nat
  | [] => 0
  | m :: moves => m.time + elapsed moves

/-- Waiting is the move that takes time and lets the program go on. -/
theorem wait_or_not (m : ClientMove) : (∃ ms, m = wait ms) ∨ ∀ ms, m ≠ wait ms := by
  cases m with
  | wait ms => exact .inl ⟨ms, rfl⟩
  | _ => exact .inr nofun

variable (a b : List ClientMove)

/-- What is sent after the end does not count. -/
theorem sent_append : sent (a ++ b) = sent a ++ if ended a then [] else sent b := by
  induction a with
  | nil => rfl
  | cons m a ih =>
    unfold sent ended at ih ⊢
    cases hm : m.ends <;> simp [hm, ih]

@[simp] theorem ended_append : ended (a ++ b) = (ended a || ended b) :=
  List.any_append

@[simp] theorem failed_append : failed (a ++ b) = (failed a || failed b) :=
  List.any_append

@[simp] theorem elapsed_append : elapsed (a ++ b) = elapsed a + elapsed b := by
  induction a with
  | nil => simp [elapsed]
  | cons m a ih => simp [elapsed, ih, Nat.add_assoc]

@[simp] theorem ended_singleton (m : ClientMove) : ended [m] = m.ends := by
  simp [ended]

@[simp] theorem failed_singleton (m : ClientMove) : failed [m] = m.fails := by
  simp [failed]

@[simp] theorem elapsed_singleton (m : ClientMove) : elapsed [m] = m.time := by
  simp [elapsed]

@[simp] theorem sent_singleton (m : ClientMove) : sent [m] = m.bytes := by
  cases m <;> simp [sent, bytes, ends]

/-- Time alone changes nothing. -/
theorem after_wait (ms : Nat) :
    sent (a ++ [wait ms]) = sent a ∧ ended (a ++ [wait ms]) = ended a ∧
      failed (a ++ [wait ms]) = failed a ∧ elapsed (a ++ [wait ms]) = elapsed a + ms := by
  simp [sent_append, bytes, ends, fails, time]

theorem head?_sent_append {a : List ClientMove} {first : UInt8} (h : (sent a).head? = some first)
    (b : List ClientMove) : (sent (a ++ b)).head? = some first := by
  rw [sent_append, List.head?_append, h]
  rfl

theorem sent_of_append {a b : List ClientMove} (h : sent (a ++ b) = []) : sent a = [] :=
  List.append_eq_nil_iff.1 (sent_append a b ▸ h) |>.1

end ClientMove

namespace Wire

/-- What a move does to the wire. -/
def move (w : Wire) : ClientMove → Wire
  | .send bs => if w.ended then w else w.send bs
  | .finish => w.finish
  | .hangUp => w.hangUp
  | .fail e => { w with fault := some e }
  | .take n => { w with written := w.written.drop n }
  | .wait _ => w

theorem sent_move (w : Wire) (m : ClientMove) :
    (w.move m).sent = w.sent ++ if w.ended then [] else m.bytes := by
  cases m with
  | send bs =>
    simp only [move, ClientMove.bytes]
    split <;> simp [send]
  | _ => simp [move, finish, hangUp, ClientMove.bytes]

theorem ended_move (w : Wire) (m : ClientMove) : (w.move m).ended = (w.ended || m.ends) := by
  cases m with
  | send bs =>
    simp only [move, ClientMove.ends]
    split <;> simp [send]
  | _ => simp [move, finish, hangUp, ClientMove.ends]

theorem fault_move (w : Wire) (m : ClientMove) :
    (w.move m).fault.isSome = (w.fault.isSome || m.fails) := by
  cases m with
  | send bs =>
    simp only [move, ClientMove.fails]
    split <;> simp [send]
  | _ => simp [move, finish, hangUp, ClientMove.fails]

/-- No move writes anything for the client. -/
theorem written_move {w : Wire} (m : ClientMove) (h : w.written = []) :
    (w.move m).written = [] := by
  cases m with
  | send bs =>
    simp only [move]
    split <;> exact h
  | take n =>
    simp only [move, h]
    exact List.drop_nil
  | _ => exact h

/-- The bytes that a wire gives are those that were sent. -/
theorem unread : ByteStream.Unread Wire.sent := by
  intro a w
  cases a with
  | read n =>
    simp only [ByteStream.act, ByteStream.read, read]
    split
    · rfl
    · split
      · simp [StreamAnswer.bytes]
      · split <;> rfl
  | write bs => exact (sent_write bs w).symm
  | _ => rfl

theorem ended_act (a : StreamAct) (w : Wire) : (ByteStream.act a w).2.ended = w.ended := by
  cases a with
  | read n =>
    simp only [ByteStream.act, ByteStream.read, read]
    repeat' split
    all_goals rfl
  | write bs =>
    simp only [ByteStream.act, ByteStream.write, write]
    split <;> rfl
  | _ => rfl

end Wire

namespace Rehearsal

/-- What a move does to a rehearsal. A client that has ended sends nothing more, and what is sent to a
program that has gone is lost. -/
def move (r : Rehearsal) : ClientMove → Rehearsal
  | .send bs => if r.finished then r else (r.send bs).toOption.getD r
  | .finish => r.finish
  | .hangUp => r.hangUp
  | .wait ms => r.wait ms
  | m => r.onWire fun w => w.move m

def run (moves : List ClientMove) (r : Rehearsal) : Rehearsal :=
  moves.foldl move r

@[simp] theorem run_nil (r : Rehearsal) : run [] r = r := rfl

@[simp] theorem run_cons (m : ClientMove) (moves : List ClientMove) (r : Rehearsal) :
    run (m :: moves) r = run moves (r.move m) := rfl

theorem run_append (a b : List ClientMove) (r : Rehearsal) : run (a ++ b) r = run b (run a r) :=
  List.foldl_append

end Rehearsal

/-! ### A stream that was given away -/

/-- What happens to a stream that was given away: its owner does something, or its client. -/
inductive Happening where
  | act (a : StreamAct)
  | move (m : ClientMove)
  deriving DecidableEq, Repr

namespace Happening

/-- The client's moves among what happens. -/
def moves : List Happening → List ClientMove
  | [] => []
  | act _ :: hs => moves hs
  | move m :: hs => m :: moves hs

end Happening

namespace PrefixedStream

open ByteStream StreamAnswer

/-- The bytes that are still to be read from a wire with bytes put back. -/
def unheard (p : PrefixedStream Wire) : Bytes :=
  p.front ++ p.inner.sent

/-- What happens to a stream, with the answers to its owner. -/
def happen : List Happening → PrefixedStream Wire → List StreamAnswer × PrefixedStream Wire
  | [], p => ([], p)
  | .act a :: hs, p => ((act a p).1 :: (happen hs (act a p).2).1, (happen hs (act a p).2).2)
  | .move m :: hs, p => happen hs { p with inner := p.inner.move m }

theorem unheard_act (a : StreamAct) (p : PrefixedStream Wire) :
    p.unheard = (act a p).1.bytes ++ (act a p).2.unheard :=
  PrefixedStream.unread Wire.unread a p

/-- No act changes whether the client sends more. -/
theorem ended_act (a : StreamAct) (p : PrefixedStream Wire) :
    (act a p).2.inner.ended = p.inner.ended := by
  have hact := acting a p
  generalize (act a p).1 = answer, (act a p).2 = p' at hact
  cases hact with
  | front _ => rfl
  | behind _ => exact Wire.ended_act _ p.inner
  | pass _ => exact Wire.ended_act a p.inner

/-- **Nothing is lost or given twice.** What reads have given, and what is still to be read, are all
bytes that were there and those that the client has sent since. -/
theorem unheard_happen (hs : List Happening) (p : PrefixedStream Wire) :
    yielded (happen hs p).1 ++ (happen hs p).2.unheard =
      p.unheard ++ if p.inner.ended then [] else ClientMove.sent (Happening.moves hs) := by
  induction hs generalizing p with
  | nil => simp [happen, Happening.moves, ClientMove.sent]
  | cons h hs ih =>
    cases h with
    | act a =>
      simp only [happen, Happening.moves, yielded_cons]
      rw [List.append_assoc, ih, ended_act, ← List.append_assoc, ← unheard_act]
    | move m =>
      -- What the client sends now stands behind what is still to be read, unless it has ended.
      simp only [happen, Happening.moves]
      rw [ih, ← List.singleton_append, ClientMove.sent_append, unheard, unheard, Wire.sent_move,
        Wire.ended_move]
      cases p.inner.ended <;> simp

/-- A read that has room gives bytes as long as there are some and the client does not fail. -/
theorem bytes_ne_nil_of_read {n : Nat} (hn : 0 < n) {p : PrefixedStream Wire}
    (hfault : p.inner.fault = none) (hp : p.unheard ≠ []) : (act (.read n) p).1.bytes ≠ [] := by
  have hact := acting (.read n) p
  generalize (act (.read n) p).1 = answer, (act (.read n) p).2 = p' at hact
  cases hact with
  | front hfront => simpa [StreamAnswer.bytes, Nat.ne_of_gt hn] using hfront
  | behind hfront =>
    have hsent : p.inner.sent ≠ [] := by simpa [unheard, hfront] using hp
    simp [act, ByteStream.read, Wire.read, hfault, hsent, StreamAnswer.bytes, Nat.ne_of_gt hn]
  | pass ha => cases ha

/-- A read that has room and says that there are no bytes has met the client's end. -/
theorem ended_of_read {n : Nat} (hn : 0 < n) {p : PrefixedStream Wire}
    (h : (act (.read n) p).1 = .read (.ready [])) : p.unheard = [] ∧ p.inner.ended = true := by
  have hact := acting (.read n) p
  generalize (act (.read n) p).1 = answer, (act (.read n) p).2 = p' at h hact
  cases hact with
  | front hfront => simp [Nat.ne_of_gt hn, hfront] at h
  | behind hfront =>
    simp only [act, ByteStream.read, Wire.read] at h
    split at h
    · cases h
    · split at h
      · next hsent => simp [Nat.ne_of_gt hn, hsent] at h
      · next hsent =>
        split at h
        · next hended => exact ⟨by simpa [unheard, hfront] using hsent, hended⟩
        · cases h
  | pass ha => cases ha

end PrefixedStream

end Switchyard
