import Switchyard.Stream.Basic

/-!
# Streams by their arrivals

A stream from which a client's bytes are read, with the answers of its reads laid down one by one:
bytes, having to wait, or an error, in any order; behind them the stream ends. A read that has room
for fewer bytes than have arrived leaves the others to the next read. Whatever is written is taken.
-/

namespace Switchyard

/-- What a read meets. -/
inductive Arrival where
  /-- Some bytes. -/
  | chunk (first : UInt8) (more : Bytes)
  /-- The reader has to wait. -/
  | pending
  | failed (e : StreamError)
  deriving DecidableEq, Repr

/-- The bytes of an arrival. -/
def Arrival.bytes : Arrival → Bytes
  | chunk b bs => b :: bs
  | pending => []
  | failed _ => []

/-- The answer to a read that gets no bytes. -/
def Arrival.interruption : Arrival → Option (Poll Bytes)
  | chunk _ _ => none
  | pending => some .pending
  | failed e => some (.failed e)

/-- What the reads of a stream will meet, one after the other. -/
structure Schedule where
  arrivals : List Arrival

namespace Schedule

/-- The chunks in which the bytes arrive. -/
def chunks (s : Schedule) : List Bytes :=
  (s.arrivals.map Arrival.bytes).filter (· ≠ [])

/-- All bytes up to the end of the stream. -/
def bytes (s : Schedule) : Bytes :=
  s.arrivals.flatMap Arrival.bytes

/-- The answers that bring no bytes, in order. -/
def interruptions (s : Schedule) : List (Poll Bytes) :=
  s.arrivals.filterMap Arrival.interruption

/-- The schedule with bytes put back. -/
def putBack (s : Schedule) : Bytes → Schedule
  | [] => s
  | b :: bs => ⟨.chunk b bs :: s.arrivals⟩

/-- Reads what has arrived. -/
def read (n : Nat) (s : Schedule) : Poll Bytes × Schedule :=
  match s.arrivals with
  | [] => (.ready [], s)
  | .pending :: rest => (.pending, ⟨rest⟩)
  | .failed e :: rest => (.failed e, ⟨rest⟩)
  | .chunk b bs :: rest => (.ready ((b :: bs).take n), putBack ⟨rest⟩ ((b :: bs).drop n))

theorem flatten_chunks (s : Schedule) : s.chunks.flatten = s.bytes := by
  rw [chunks, bytes, List.flatten_filter_ne_nil, List.flatMap_def]

@[simp] theorem bytes_putBack (s : Schedule) (bs : Bytes) :
    (s.putBack bs).bytes = bs ++ s.bytes := by
  cases bs <;> rfl

@[simp] theorem interruptions_putBack (s : Schedule) (bs : Bytes) :
    (s.putBack bs).interruptions = s.interruptions := by
  cases bs <;> rfl

/-! ### What reads do -/

variable {n : Nat} {s s' : Schedule}

/-- A read that gets bytes takes them off. -/
theorem bytes_of_read {bs : Bytes} (h : s.read n = (.ready bs, s')) :
    s.bytes = bs ++ s'.bytes ∧ s.interruptions = s'.interruptions := by
  unfold read at h
  split at h
  · cases h
    exact ⟨rfl, rfl⟩
  · cases h
  · cases h
  · next b more rest harrivals =>
    cases h
    rw [bytes_putBack, interruptions_putBack, ← List.append_assoc, List.take_append_drop, bytes,
      interruptions, harrivals]
    exact ⟨rfl, rfl⟩

theorem length_read_le {bs : Bytes} (h : s.read n = (.ready bs, s')) : bs.length ≤ n := by
  unfold read at h
  split at h
  all_goals cases h
  · exact Nat.zero_le n
  · exact List.length_take_le _ _

/-- A read that has room and gets no bytes has met the end. -/
theorem arrivals_of_read (hn : 0 < n) (h : s.read n = (.ready [], s')) :
    s.arrivals = [] ∧ s' = s := by
  unfold read at h
  split at h
  · next harrivals =>
    cases h
    exact ⟨harrivals, rfl⟩
  · cases h
  · cases h
  · next b more rest harrivals =>
    -- A chunk that has arrived gives at least its first byte.
    obtain ⟨k, rfl⟩ := Nat.exists_eq_succ_of_ne_zero (Nat.ne_of_gt hn)
    cases h

/-- A read that gets no answer takes no bytes off. -/
theorem interruptions_of_read {a : Poll Bytes} (h : s.read n = (a, s'))
    (ha : ∀ bs, a ≠ .ready bs) :
    s.bytes = s'.bytes ∧ s.interruptions = a :: s'.interruptions := by
  unfold read at h
  split at h
  · cases h
    exact absurd rfl (ha _)
  · next rest harrivals =>
    cases h
    rw [bytes, interruptions, harrivals]
    exact ⟨rfl, rfl⟩
  · next e rest harrivals =>
    cases h
    rw [bytes, interruptions, harrivals]
    exact ⟨rfl, rfl⟩
  · cases h
    exact absurd rfl (ha _)

instance : ByteStream Schedule where
  read := read
  write bs s := (.ready bs.length, s)
  flush s := (.ready (), s)
  shutdown s := (.ready (), s)
  backlog s := s.bytes.length
  length_read_le := length_read_le
  backlog_lt h hne := by
    have hpos := List.length_pos_iff.2 hne
    rw [(bytes_of_read h).1, List.length_append]
    omega
  backlog_read_le n s := by
    rcases hr : s.read n with ⟨a, s'⟩
    cases a with
    | ready bs =>
      rw [(bytes_of_read hr).1, List.length_append]
      exact Nat.le_add_left _ _
    | pending =>
      exact Nat.le_of_eq (congrArg List.length (interruptions_of_read hr (by simp)).1.symm)
    | failed e =>
      exact Nat.le_of_eq (congrArg List.length (interruptions_of_read hr (by simp)).1.symm)
  backlog_write_le _ _ := Nat.le_refl _

end Schedule

end Switchyard
