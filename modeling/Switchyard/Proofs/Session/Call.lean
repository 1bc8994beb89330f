import Switchyard.Session.Session

/-!
# Calls

What a session and its relay do to the channel, to the remote stream and to the network is a list of
calls with their answers. Between two calls the world around may change in any way it likes
(`Change`): items arrive, the channel becomes ready or not, and something happens to the remote
stream.
-/

namespace Switchyard

/-- A call with its answer. A channel that is not ready is not called. -/
inductive Call where
  | pull (item : Item)
  /-- A message is handed over to the channel. -/
  | send (m : Message) (answer : Except ChannelError Unit)
  /-- The channel has passed on what was handed over. -/
  | settle
  | close (answer : Except ChannelError Unit)
  | read (answer : Poll Bytes)
  /-- The remote stream is given bytes, of which it may take some. -/
  | write (bs : Bytes) (answer : Poll Nat)
  | flush (answer : Poll Unit)
  | shutdown (answer : Poll Unit)
  | lookUp (name : List Char)
  | dial (target : List Char) (tcp : UInt16)

/-- The payload of a binary message. -/
def Item.payload? : Item → Option Bytes
  | .message (.binary bs) => some bs
  | _ => none

namespace Call

def pulled? : Call → Option Item
  | pull item => some item
  | _ => none

def handed? : Call → Option Message
  | send m (.ok ()) => some m
  | _ => none

/-- A chunk that was read; at the end of the stream there is none. -/
def chunk? : Call → Option Bytes
  | read (.ready (b :: bs)) => some (b :: bs)
  | _ => none

/-- The bytes that a write has taken. -/
def taken : Call → Bytes
  | write bs (.ready n) => bs.take n
  | _ => []

def name? : Call → Option (List Char)
  | lookUp name => some name
  | _ => none

/-- The remote stream makes the direction to it wait. -/
def isStalled : Call → Bool
  | write _ .pending => true
  | flush .pending => true
  | shutdown .pending => true
  | _ => false

/-- How the remote stream fails; a write that takes nothing fails, too. -/
def failure? : Call → Option StreamError
  | write _ (.failed e) => some e
  | write _ (.ready 0) => some (.writeZero "write zero")
  | flush (.failed e) => some e
  | shutdown (.failed e) => some e
  | _ => none

/-- Calls of the direction to the client, and the closing of the channel. -/
def isDown : Call → Bool
  | read _ => true
  | send _ _ => true
  | settle => true
  | close _ => true
  | _ => false

theorem silent_of_isDown {x : Call} (h : x.isDown = false) :
    x.chunk? = none ∧ x.handed? = none := by
  cases x <;> first | exact ⟨rfl, rfl⟩ | cases h

theorem isDown_of_isStalled {x : Call} (h : x.isStalled = true) : x.isDown = false := by
  unfold isStalled at h
  split at h <;> first | rfl | cases h

theorem isDown_of_failure {x : Call} {e : StreamError} (h : x.failure? = some e) :
    x.isDown = false := by
  unfold failure? at h
  split at h <;> first | rfl | cases h

theorem taken_of_isStalled {x : Call} (h : x.isStalled = true) : x.taken = [] := by
  unfold isStalled at h
  split at h <;> first | rfl | cases h

theorem taken_of_failure {x : Call} {e : StreamError} (h : x.failure? = some e) : x.taken = [] := by
  unfold failure? at h
  split at h <;> first | rfl | cases h

end Call

/-! ### What lists of calls come to -/

namespace Calls

/-- The items that were pulled. -/
def pulls (calls : List Call) : List Item :=
  calls.filterMap Call.pulled?

/-- The payloads of the binary messages that were pulled. -/
def payloads (calls : List Call) : List Bytes :=
  (pulls calls).filterMap Item.payload?

/-- The names that were looked up. -/
def lookups (calls : List Call) : List (List Char) :=
  calls.filterMap Call.name?

/-- The bytes that the remote stream has taken. -/
def taken (calls : List Call) : Bytes :=
  calls.flatMap Call.taken

/-- The chunks that were read from the remote stream. -/
def chunks (calls : List Call) : List Bytes :=
  calls.filterMap Call.chunk?

/-- The messages that the channel was given and did not refuse. -/
def handed (calls : List Call) : List Message :=
  calls.filterMap Call.handed?

variable (calls calls' : List Call) (x : Call)

@[simp] theorem pulls_nil : pulls [] = [] := rfl

@[simp] theorem pulls_append : pulls (calls ++ calls') = pulls calls ++ pulls calls' :=
  List.filterMap_append

@[simp] theorem pulls_cons : pulls (x :: calls) = x.pulled?.toList ++ pulls calls := by
  unfold pulls
  cases hx : x.pulled? <;> simp [hx]

@[simp] theorem payloads_nil : payloads [] = [] := rfl

@[simp] theorem payloads_append :
    payloads (calls ++ calls') = payloads calls ++ payloads calls' := by
  simp [payloads]

@[simp] theorem payloads_cons :
    payloads (x :: calls) = (x.pulled?.bind Item.payload?).toList ++ payloads calls := by
  unfold payloads
  cases hx : x.pulled? with
  | none => simp [hx]
  | some item => cases hi : item.payload? <;> simp [hx, hi]

@[simp] theorem taken_nil : taken [] = [] := rfl

@[simp] theorem taken_append : taken (calls ++ calls') = taken calls ++ taken calls' :=
  List.flatMap_append

@[simp] theorem taken_cons : taken (x :: calls) = x.taken ++ taken calls := rfl

@[simp] theorem chunks_nil : chunks [] = [] := rfl

@[simp] theorem chunks_append : chunks (calls ++ calls') = chunks calls ++ chunks calls' :=
  List.filterMap_append

@[simp] theorem chunks_cons : chunks (x :: calls) = x.chunk?.toList ++ chunks calls := by
  unfold chunks
  cases hx : x.chunk? <;> simp [hx]

@[simp] theorem handed_nil : handed [] = [] := rfl

@[simp] theorem handed_append : handed (calls ++ calls') = handed calls ++ handed calls' :=
  List.filterMap_append

@[simp] theorem handed_cons : handed (x :: calls) = x.handed?.toList ++ handed calls := by
  unfold handed
  cases hx : x.handed? <;> simp [hx]

@[simp] theorem lookups_append : lookups (calls ++ calls') = lookups calls ++ lookups calls' :=
  List.filterMap_append

@[simp] theorem lookups_cons : lookups (x :: calls) = x.name?.toList ++ lookups calls := by
  unfold lookups
  cases hx : x.name? <;> simp [hx]

theorem payloads_of_pulls {calls : List Call} (h : pulls calls = []) : payloads calls = [] := by
  rw [payloads, h, List.filterMap_nil]

theorem ne_nil_of_mem_chunks {calls : List Call} {chunk : Bytes} (h : chunk ∈ chunks calls) :
    chunk ≠ [] := by
  obtain ⟨x, -, hx⟩ := List.mem_filterMap.1 h
  unfold Call.chunk? at hx
  split at hx <;> cases hx
  exact List.cons_ne_nil _ _

theorem exists_pull {calls : List Call} (h : pulls calls ≠ []) :
    ∃ before item after, calls = before ++ .pull item :: after := by
  obtain ⟨item, hitem⟩ := List.exists_mem_of_ne_nil _ h
  obtain ⟨x, hx, hp⟩ := List.mem_filterMap.1 hitem
  obtain ⟨before, after, rfl⟩ := List.append_of_mem hx
  cases x <;> cases hp
  exact ⟨before, item, after, rfl⟩

/-- A call that is somewhere in a record that has grown by one is the new one or was there before.
-/
theorem eq_or_exists_of_concat {calls before after : List Call} {x y : Call}
    (h : calls ++ [x] = before ++ y :: after) :
    (before = calls ∧ y = x) ∨ ∃ after', calls = before ++ y :: after' ∧ after = after' ++ [x] := by
  rcases List.eq_nil_or_concat after with rfl | ⟨after', z, rfl⟩
  · obtain ⟨h₁, h₂⟩ := List.append_inj' h rfl
    exact .inl ⟨h₁.symm, (List.cons.inj h₂).1.symm⟩
  · have h' : calls ++ [x] = (before ++ y :: after') ++ [z] := by rw [h]; simp
    obtain ⟨h₁, h₂⟩ := List.append_inj' h' rfl
    exact .inr ⟨after', h₁, by rw [(List.cons.inj h₂).1, List.concat_eq_append]⟩

end Calls

/-! ### The world around -/

/-- What happens between two calls: items arrive, the channel stands otherwise than before, and
something becomes of the remote stream. -/
structure Change (σ : Type) where
  arrivals : List Item
  blocked : Bool
  flushBlocked : Bool
  sendError : Option ChannelError
  closeError : Option ChannelError
  remote : σ → σ

namespace Change

variable {σ : Type}

/-- The channel after the change. What was pulled and sent stays as it is. -/
def channel (w : Change σ) (c : Channel) : Channel :=
  { c with
    items := c.items ++ w.arrivals
    blocked := w.blocked
    flushBlocked := w.flushBlocked
    sendError := w.sendError
    closeError := w.closeError }

end Change

end Switchyard
