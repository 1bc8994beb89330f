import Switchyard.Proofs.Stream.Schedule
import Switchyard.Stream.Prefixed

/-!
# Streams in use

What a stream does in use is a list of acts with its answers. A view of a stream shows the bytes that
are to be read from it (`Unread`): every act takes off what its answer brings. A stream with bytes put
back shows them in front of what the stream behind it shows, so reads yield both, once and in order;
writes, flushes and shutdowns go to the stream behind it.
-/

namespace Switchyard

/-- What is done to a stream. -/
inductive StreamAct where
  | read (n : Nat)
  | write (bs : Bytes)
  | flush
  | shutdown
  deriving DecidableEq, Repr

/-- What a stream answers. -/
inductive StreamAnswer where
  | read (a : Poll Bytes)
  | write (a : Poll Nat)
  | done (a : Poll Unit)
  deriving DecidableEq, Repr

namespace StreamAct

def isRead : StreamAct → Bool
  | read _ => true
  | _ => false

/-- The act is a read with room for bytes. -/
def hasRoom : StreamAct → Bool
  | read n => 0 < n
  | _ => false

end StreamAct

namespace StreamAnswer

def isRead : StreamAnswer → Bool
  | read _ => true
  | _ => false

/-- The bytes that an answer brings. -/
def bytes : StreamAnswer → Bytes
  | read (.ready bs) => bs
  | _ => []

/-- The answer to a read that has to wait or fails. -/
def interruption : StreamAnswer → Option (Poll Bytes)
  | read .pending => some .pending
  | read (.failed e) => some (.failed e)
  | _ => none

def yielded (answers : List StreamAnswer) : Bytes :=
  answers.flatMap bytes

/-- The waits and errors of reads, in order. -/
def interruptions (answers : List StreamAnswer) : List (Poll Bytes) :=
  answers.filterMap interruption

@[simp] theorem yielded_nil : yielded [] = [] := rfl

@[simp] theorem yielded_cons (a : StreamAnswer) (answers : List StreamAnswer) :
    yielded (a :: answers) = a.bytes ++ yielded answers := rfl

@[simp] theorem interruptions_nil : interruptions [] = [] := rfl

@[simp] theorem interruptions_cons (a : StreamAnswer) (answers : List StreamAnswer) :
    interruptions (a :: answers) = a.interruption.toList ++ interruptions answers := by
  unfold interruptions
  cases ha : a.interruption <;> simp [ha]

theorem silent_of_not_isRead {answer : StreamAnswer} (h : answer.isRead = false) :
    answer.bytes = [] ∧ answer.interruption = none := by
  cases answer with
  | read a => cases h
  | _ => exact ⟨rfl, rfl⟩

/-- The answer to a read that does not say that there are no bytes brings some, or is an
interruption. -/
theorem one_le_of_ne_end {answer : StreamAnswer} (hread : answer.isRead = true)
    (h : answer ≠ .read (.ready [])) :
    1 ≤ answer.bytes.length + answer.interruption.toList.length := by
  cases answer with
  | read a =>
    cases a with
    | ready bs =>
      cases bs with
      | nil => exact absurd rfl h
      | cons b bs => exact Nat.le_add_left 1 bs.length
    | _ => exact Nat.le_refl 1
  | _ => cases hread

end StreamAnswer

namespace ByteStream

open StreamAnswer

variable {σ : Type} [ByteStream σ]

def act : StreamAct → σ → StreamAnswer × σ
  | .read n, s => (.read (read n s).1, (read n s).2)
  | .write bs, s => (.write (write bs s).1, (write bs s).2)
  | .flush, s => (.done (flush s).1, (flush s).2)
  | .shutdown, s => (.done (shutdown s).1, (shutdown s).2)

def acts : List StreamAct → σ → List StreamAnswer × σ
  | [], s => ([], s)
  | a :: as, s => ((act a s).1 :: (acts as (act a s).2).1, (acts as (act a s).2).2)

@[simp] theorem acts_nil (s : σ) : acts [] s = ([], s) := rfl

@[simp] theorem acts_cons (a : StreamAct) (as : List StreamAct) (s : σ) :
    acts (a :: as) s =
      ((act a s).1 :: (acts as (act a s).2).1, (acts as (act a s).2).2) := rfl

/-- A view shows the bytes that are to be read from a stream. -/
def Unread (view : σ → Bytes) : Prop :=
  ∀ (a : StreamAct) (s : σ), view s = (act a s).1.bytes ++ view (act a s).2

/-- What acts bring is what was to be read first. -/
theorem Unread.acts {view : σ → Bytes} (h : Unread view) (as : List StreamAct) (s : σ) :
    view s = yielded (ByteStream.acts as s).1 ++ view (ByteStream.acts as s).2 := by
  induction as generalizing s with
  | nil => rfl
  | cons a as ih => rw [h a s, ih, acts_cons, yielded_cons, List.append_assoc]

theorem isRead_act (a : StreamAct) (s : σ) : (act a s).1.isRead = a.isRead := by
  cases a <;> rfl

end ByteStream

/-! ### Streams with bytes put back -/

namespace PrefixedStream

open ByteStream StreamAnswer

variable {σ : Type} [ByteStream σ]

/-- All that an act can come to. -/
inductive Acting (p : PrefixedStream σ) : StreamAct → StreamAnswer → PrefixedStream σ → Prop
  /-- A read takes bytes off the front. -/
  | front {n : Nat} : p.front ≠ [] →
      Acting p (.read n) (.read (.ready (p.front.take n))) { p with front := p.front.drop n }
  /-- A read goes to the stream behind the front when nothing is in front. -/
  | behind {n : Nat} : p.front = [] →
      Acting p (.read n) (act (.read n) p.inner).1 { p with inner := (act (.read n) p.inner).2 }
  /-- Every other act goes there, too. -/
  | pass {a : StreamAct} : a.isRead = false →
      Acting p a (act a p.inner).1 { p with inner := (act a p.inner).2 }

theorem acting (a : StreamAct) (p : PrefixedStream σ) : Acting p a (act a p).1 (act a p).2 := by
  cases a with
  | read n =>
    simp only [act, ByteStream.read, PrefixedStream.read]
    split
    · next hp => exact .behind hp
    · next hp => exact .front hp
  | _ => exact .pass rfl

/-- What was put back is to be read first. -/
theorem unread {view : σ → Bytes} (h : Unread view) :
    Unread fun p : PrefixedStream σ => p.front ++ view p.inner := by
  intro a p
  have hact := acting a p
  generalize (act a p).1 = answer, (act a p).2 = p' at hact
  cases hact with
  | front _ =>
    simp only [bytes]
    rw [← List.append_assoc, List.take_append_drop]
  | @behind n hp =>
    -- With nothing in front, both sides show the stream behind.
    simp only [hp, List.nil_append]
    exact h (.read n) p.inner
  | pass ha =>
    have hnone := (silent_of_not_isRead ((isRead_act a p.inner).trans ha)).1
    have hview := h a p.inner
    rw [hnone, List.nil_append] at hview ⊢
    exact congrArg (p.front ++ ·) hview

end PrefixedStream

end Switchyard
