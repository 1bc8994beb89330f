import Switchyard.Measure
import Switchyard.WebSocket.Expander
import Switchyard.Stream.Basic

/-!
# The stream with compressed messages expanded

Between a client's connection and the WebSocket layer stands a stream that gives the client's frames
as the expander puts them out. It reads only when it has nothing left to give, at most 8192 bytes at
a time. A frame that is not complete when the client ends is given as it is. Without compression the
stream passes everything on.
-/

namespace Switchyard

/-- A stream whose compressed messages are given as plain frames. -/
structure InflateStream (σ : Type) where
  inner : σ
  /-- The expander, if compression was agreed on. -/
  expander : Option Expander
  /-- Bytes of a frame that is not complete. -/
  raw : Bytes
  /-- Bytes to be given. -/
  ready : Bytes
  /-- The client has ended. -/
  ended : Bool

namespace InflateStream

variable {σ : Type} [ByteStream σ]

/-- A stream of which nothing has been read. -/
def make (inner : σ) (enabled : Bool) : InflateStream σ :=
  ⟨inner, if enabled then some .start else none, [], [], false⟩

/-- How many bytes are read at a time. -/
def chunkSize : Nat := 8192

/-- The error that a failed expansion is reported as. -/
def streamError (e : ExpandError) : StreamError :=
  ⟨.invalidData, e.message.toList⟩

/-- Takes in bytes of the client and expands what is complete. -/
def absorb (s : InflateStream σ) (x : Expander) (bytes : Bytes) :
    Option ExpandError × InflateStream σ :=
  let result := x.process (s.raw ++ bytes)
  (result.error,
    { s with
      expander := some result.expander
      raw := result.rest
      ready := s.ready ++ result.output })

/-- Gives bytes that are ready. -/
def give (n : Nat) (s : InflateStream σ) : Poll Bytes × InflateStream σ :=
  (.ready (s.ready.take n), { s with ready := s.ready.drop n })

omit [ByteStream σ] in
theorem inner_absorb (s : InflateStream σ) (x : Expander) (bytes : Bytes) :
    (s.absorb x bytes).2.inner = s.inner := rfl

/-- Reads from the client until bytes are ready. -/
def readExpanded (n : Nat) (x : Expander) (s : InflateStream σ) : Poll Bytes × InflateStream σ :=
  if s.ready ≠ [] then s.give n
  else if s.ended then (.ready [], s)
  else
    match _h : ByteStream.read chunkSize s.inner with
    | (.pending, inner) => (.pending, { s with inner })
    | (.failed e, inner) => (.failed e, { s with inner })
    | (.ready [], inner) => { s with inner, ended := true, raw := [], ready := s.raw }.give n
    | (.ready (b :: bs), inner) =>
      match _ha : absorb { s with inner } x (b :: bs) with
      | (some e, s) => (.failed (streamError e), s)
      | (none, s) => readExpanded n (s.expander.getD x) s
termination_by ByteStream.backlog s.inner
decreasing_by
  have hs := congrArg (fun p => p.2.inner) _ha
  simp only [inner_absorb] at hs
  rw [← hs]
  exact ByteStream.backlog_lt _h (by simp)

/-- Reads at most `n` bytes. -/
def read (n : Nat) (s : InflateStream σ) : Poll Bytes × InflateStream σ :=
  match s.expander with
  | some x => s.readExpanded n x
  | none =>
    let (answer, inner) := ByteStream.read n s.inner
    (answer, { s with inner })

/-! ### Reading comes to an end -/

/-- What bounds the reads that give bytes without waiting: the backlog of the client, and the bytes
that were read and not given. -/
def backlog (s : InflateStream σ) : Nat × Nat :=
  (ByteStream.backlog s.inner, s.ready.length + s.raw.length)

/-- Less is left to be read. -/
abbrev Shorter (a b : Nat × Nat) : Prop :=
  Prod.Lex (· < ·) (· < ·) a b

theorem shorter_of_give {n : Nat} {s s' : InflateStream σ} {bs : Bytes}
    (h : s.give n = (.ready bs, s')) (hne : bs ≠ []) : Shorter s'.backlog s.backlog := by
  obtain ⟨h1, h2⟩ := Prod.mk.inj h
  cases h1
  cases h2
  have hpos := List.length_pos_iff.2 hne
  simp only [List.length_take] at hpos
  refine Prod.Lex.right _ ?_
  simp only [List.length_drop]
  omega

theorem shorter_of_readExpanded {n : Nat} {x : Expander} {s s' : InflateStream σ} {bs : Bytes}
    (h : s.readExpanded n x = (.ready bs, s')) (hne : bs ≠ []) :
    Shorter s'.backlog s.backlog := by
  fun_induction readExpanded n x s with
  | case1 x s hr => exact shorter_of_give h hne
  | case2 x s hr he => cases h; exact absurd rfl hne
  | case3 => cases h
  | case4 => cases h
  | case5 x s hr he inner hi =>
    have hg := shorter_of_give h hne
    have hle := ByteStream.backlog_read_le chunkSize s.inner
    rw [hi] at hle
    have hready : s.ready = [] := Decidable.not_not.1 hr
    simp only [backlog, hready, List.length_nil, Nat.zero_add, Nat.add_zero] at hg ⊢
    rcases Nat.lt_or_eq_of_le hle with hlt | heq
    · exact Measure.lex_of_lex_of_lt hg hlt
    · simp only at heq
      rwa [heq] at hg
  | case6 => cases h
  | case7 x s hr he b rest inner hi t ht ih =>
    have hlt : ByteStream.backlog inner < ByteStream.backlog s.inner :=
      ByteStream.backlog_lt hi (by simp)
    have hinner : t.inner = inner := by
      have := congrArg (fun p => p.2.inner) ht
      simpa only [inner_absorb] using this.symm
    have hs := ih h
    simp only [backlog, hinner] at hs ⊢
    exact Measure.lex_of_lex_of_lt hs hlt

/-- A read that gives bytes leaves less to be read. -/
theorem shorter_of_read {n : Nat} {s s' : InflateStream σ} {bs : Bytes}
    (h : s.read n = (.ready bs, s')) (hne : bs ≠ []) : Shorter s'.backlog s.backlog := by
  unfold read at h
  split at h
  · exact shorter_of_readExpanded h hne
  · obtain ⟨h1, h2⟩ := Prod.mk.inj h
    cases h2
    exact .left _ _ (ByteStream.backlog_lt (Prod.ext h1 rfl) hne)

/-! ### Writing -/

/-- Does something to the stream below. -/
def pass {α : Type} (f : σ → Poll α × σ) (s : InflateStream σ) : Poll α × InflateStream σ :=
  let (answer, inner) := f s.inner
  (answer, { s with inner })

/-- Writes pass unchanged. -/
def write (bs : Bytes) : InflateStream σ → Poll Nat × InflateStream σ :=
  pass (ByteStream.write bs)

/-- Flushes the stream below. -/
def flush : InflateStream σ → Poll Unit × InflateStream σ :=
  pass ByteStream.flush

/-- Ends the direction of writing of the stream below. -/
def shutdown : InflateStream σ → Poll Unit × InflateStream σ :=
  pass ByteStream.shutdown

end InflateStream

end Switchyard
