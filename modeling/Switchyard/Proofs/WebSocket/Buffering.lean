import Switchyard.Proofs.Stream.Acts
import Switchyard.Proofs.Stream.Schedule
import Switchyard.Proofs.WebSocket.Expander
import Switchyard.Proofs.WebSocket.HeaderBounds
import Switchyard.WebSocket.InflateStream

/-!
# What is kept of a client's bytes

A stream that expands messages keeps bytes in three places: the parts of a message of which frames
are missing, the bytes of a frame that is not complete, and what is ready. The first are never more
than a message may have, whatever errors were met (`OpenMessage.Fits`); the second are less than a
frame may have until bytes could not be expanded (`Settled`); and the stream below is asked only when
nothing is ready. `Reads` is all that a read can come to, with the askings and the error on its way.
-/

namespace Switchyard

/-! ### The bytes of a frame that is not complete -/

theorem WireHeader.length_bytes_le (w : WireHeader) : w.bytes.length ≤ 14 := by
  have hform : w.form.width ≤ 8 := by cases w.form <;> decide
  have hkey : w.keyBytes.length ≤ 4 := by
    rw [w.length_keyBytes]
    split <;> decide
  simp only [bytes, List.length_cons, length_fields]
  omega

/-- Bytes that do not begin with a frame, and do not announce too long a one, are fewer than a frame
may have. -/
theorem WireFrame.length_lt_of_incomplete {raw : Bytes} (hraw : Incomplete raw)
    (hr : FrameHeader.read raw ≠ .tooLarge) : raw.length < maxMessage + 14 := by
  have hstands := FrameHeader.stands_read raw
  generalize hread : FrameHeader.read raw = r at hstands hr
  cases hstands with
  | incomplete w more hne h =>
    have hlength := congrArg List.length h
    have hle := w.length_bytes_le
    have hpos := List.length_pos_iff.2 hne
    rw [List.length_append] at hlength
    omega
  | tooLarge => exact absurd rfl hr
  | header w rest h hmax =>
    have hlt := Expander.short_of_incomplete hraw _ hread
    have hle := w.length_bytes_le
    rw [w.length_bytes] at hle
    have htotal : w.header.total = w.header.length + w.payloadLength := rfl
    omega

namespace Expander

/-- What processing without an error leaves is not a frame, and does not announce too long a one. -/
theorem rest_of_process (x : Expander) (raw : Bytes) (h : (x.process raw).error = none) :
    WireFrame.Incomplete (x.process raw).rest ∧
      FrameHeader.read (x.process raw).rest ≠ .tooLarge := by
  induction raw using bytes_induction generalizing x with
  | incomplete raw hincomplete hr =>
    rw [process_of_incomplete hincomplete hr]
    exact ⟨hincomplete, hr⟩
  | tooLarge raw hlarge =>
    rw [process_of_tooLarge hlarge] at h
    cases h
  | frame f rest hf ih =>
    rw [process_frame x hf] at h ⊢
    rcases hframe : x.frame f.header f.bytes with ⟨e | out, x'⟩
    · rw [hframe] at h
      cases h
    · rw [hframe] at h
      exact ih x' h

end Expander

/-! ### The parts of a message -/

/-- The parts of a message are no more than a message may have, and its first frame was a frame of
data. -/
structure OpenMessage.Fits (m : OpenMessage) : Prop where
  size_eq : m.size = m.parts.flatten.length
  size_le : m.size ≤ maxMessage
  opcode_ne : m.opcode ≠ Opcode.continuation
  not_isControl : Opcode.isControl m.opcode = false

namespace Expander

/-- The message that has begun, if there is one, fits. -/
def Fits (x : Expander) : Prop :=
  ∀ m ∈ x.message, m.Fits

variable {x : Expander} {h : FrameHeader}

theorem fits_start : start.Fits := nofun

/-- A frame that is to be gathered goes on with a message, or is one of data and begins one. -/
theorem compressed?_eq_ok_true (hc : x.compressed? h = .ok true) :
    (∃ m, x.message = some m) ∨
      x.message = none ∧ h.opcode ≠ Opcode.continuation ∧ Opcode.isControl h.opcode = false := by
  unfold compressed? at hc
  split at hc
  · cases hc
  · next hcontrol =>
    cases hm : x.message with
    | some m => exact .inl ⟨m, rfl⟩
    | none =>
      rw [hm] at hc
      simp only [Option.isSome_none, Bool.false_eq_true, if_false, Except.ok.injEq,
        Bool.and_eq_true, bne_iff_ne, ne_eq] at hc
      exact .inr ⟨rfl, hc.2, Bool.eq_false_iff.2 hcontrol⟩

/-- The message that a frame is gathered into, without that frame. -/
theorem Fits.begun (hx : x.Fits) (hc : x.compressed? h = .ok true) :
    (x.message.getD ⟨h.opcode, [], 0⟩).Fits := by
  obtain ⟨m, hm⟩ | ⟨hm, hopcode, hcontrol⟩ := compressed?_eq_ok_true hc
  · rw [hm]
    exact hx m hm
  · rw [hm]
    exact ⟨rfl, Nat.zero_le _, hopcode, hcontrol⟩

theorem Fits.gather (hx : x.Fits) (hc : x.compressed? h = .ok true) (payload : Bytes) :
    (x.gather h payload).2.Fits := by
  have hbegun := hx.begun hc
  unfold Expander.gather
  dsimp only
  split
  · rintro m ⟨⟩
    exact hbegun
  · next hsize =>
    split
    · split
      all_goals exact nofun
    · rintro m ⟨⟩
      refine ⟨?_, Nat.not_lt.1 hsize, hbegun.opcode_ne, hbegun.not_isControl⟩
      simp only [extend, List.flatten_cons, List.length_append, hbegun.size_eq]
      exact Nat.add_comm _ _

theorem Fits.frame (hx : x.Fits) (h : FrameHeader) (bytes : Bytes) :
    (x.frame h bytes).2.Fits := by
  unfold Expander.frame
  split
  · exact hx
  · exact hx
  · next hc => exact hx.gather hc _

/-- No frames make the parts of a message too many, whether or not they can be expanded. -/
theorem Fits.processFrom (hx : x.Fits) (done : List Bytes) (raw : Bytes) :
    (x.processFrom done raw).expander.Fits := by
  fun_induction Expander.processFrom x done raw with
  | case1 => exact hx
  | case2 => exact hx
  | case3 => exact hx
  | case4 x done raw h hr hl out x' hframe ih =>
    have hfits := hx.frame h (raw.take h.total)
    rw [hframe] at hfits
    exact ih hfits
  | case5 x done raw h hr hl e x' hframe =>
    have hfits := hx.frame h (raw.take h.total)
    rwa [hframe] at hfits

theorem Fits.process (hx : x.Fits) (raw : Bytes) : (x.process raw).expander.Fits :=
  hx.processFrom [] raw

end Expander

namespace InflateStream

/-! ### Reads -/

/-- How a stream stood when it asked the stream below for bytes, and for how many it asked. -/
abbrev Asking (σ : Type) :=
  InflateStream σ × Nat

/-- Nothing is there to be given, and the client has not ended. -/
structure Lacks {σ : Type} (s : InflateStream σ) : Prop where
  ready_eq : s.ready = []
  ended_eq : s.ended = false

variable {σ : Type} [ByteStream σ]

/-- All that a read can come to: its askings, the error that bytes have met on its way, its answer,
and what the stream is afterwards. -/
inductive Reads (n : Nat) : InflateStream σ → List (Asking σ) → Option ExpandError → Poll Bytes →
    InflateStream σ → Prop
  /-- Without compression the read is passed on as it is. -/
  | passed {s : InflateStream σ} {a : Poll Bytes} {inner : σ} (hx : s.expander = none)
      (hr : ByteStream.read n s.inner = (a, inner)) : Reads n s [(s, n)] none a { s with inner }
  | given {s : InflateStream σ} {x : Expander} (hx : s.expander = some x) (hready : s.ready ≠ []) :
      Reads n s [] none (.ready (s.ready.take n)) { s with ready := s.ready.drop n }
  | exhausted {s : InflateStream σ} {x : Expander} (hx : s.expander = some x) (hready : s.ready = [])
      (hended : s.ended = true) : Reads n s [] none (.ready []) s
  /-- The stream below has to wait, or fails. -/
  | interrupted {s : InflateStream σ} {x : Expander} {a : Poll Bytes} {inner : σ}
      (hx : s.expander = some x) (hs : s.Lacks) (hr : ByteStream.read chunkSize s.inner = (a, inner))
      (ha : ∀ bs, a ≠ .ready bs) : Reads n s [(s, chunkSize)] none a { s with inner }
  /-- The client ends, and an incomplete frame is given as it is. -/
  | finished {s : InflateStream σ} {x : Expander} {inner : σ} (hx : s.expander = some x)
      (hs : s.Lacks) (hr : ByteStream.read chunkSize s.inner = (.ready [], inner)) :
      Reads n s [(s, chunkSize)] none (.ready (s.raw.take n))
        { s with inner, ended := true, raw := [], ready := s.raw.drop n }
  | faulted {s s' : InflateStream σ} {x : Expander} {bs : Bytes} {inner : σ} {e : ExpandError}
      (hx : s.expander = some x) (hs : s.Lacks)
      (hr : ByteStream.read chunkSize s.inner = (.ready bs, inner)) (hne : bs ≠ [])
      (ha : absorb { s with inner } x bs = (some e, s')) :
      Reads n s [(s, chunkSize)] (some e) (.failed (streamError e)) s'
  /-- Bytes are taken in, and then the read goes on. -/
  | absorbed {s s' s'' : InflateStream σ} {x : Expander} {bs : Bytes} {inner : σ}
      {asks : List (Asking σ)} {fault : Option ExpandError} {a : Poll Bytes}
      (hx : s.expander = some x) (hs : s.Lacks)
      (hr : ByteStream.read chunkSize s.inner = (.ready bs, inner)) (hne : bs ≠ [])
      (ha : absorb { s with inner } x bs = (none, s')) (hrest : Reads n s' asks fault a s'') :
      Reads n s ((s, chunkSize) :: asks) fault a s''

omit [ByteStream σ] in
theorem lacks_of_not {s : InflateStream σ} (hready : ¬ s.ready ≠ []) (hended : ¬ s.ended = true) :
    s.Lacks :=
  ⟨Decidable.not_not.1 hready, Bool.eq_false_iff.2 hended⟩

theorem reads_readExpanded (n : Nat) {x : Expander} {s : InflateStream σ}
    (hx : s.expander = some x) : ∃ asks fault,
      Reads n s asks fault (s.readExpanded n x).1 (s.readExpanded n x).2 := by
  fun_induction InflateStream.readExpanded n x s with
  | case1 x s hready => exact ⟨_, _, .given hx hready⟩
  | case2 x s hready hended => exact ⟨_, _, .exhausted hx (Decidable.not_not.1 hready) hended⟩
  | case3 x s hready hended inner hi =>
    exact ⟨_, _, .interrupted hx (lacks_of_not hready hended) hi (by simp)⟩
  | case4 x s hready hended e inner hi =>
    exact ⟨_, _, .interrupted hx (lacks_of_not hready hended) hi (by simp)⟩
  | case5 x s hready hended inner hi =>
    exact ⟨_, _, .finished hx (lacks_of_not hready hended) hi⟩
  | case6 x s hready hended b rest inner hi e t ht =>
    exact ⟨_, _, .faulted hx (lacks_of_not hready hended) hi (List.cons_ne_nil b rest) ht⟩
  | case7 x s hready hended b rest inner hi t ht ih =>
    obtain ⟨y, hy⟩ : ∃ y, t.expander = some y := by
      cases (Prod.mk.inj ht).2
      exact ⟨_, rfl⟩
    rw [hy, Option.getD_some] at ih ⊢
    obtain ⟨asks, fault, hrest⟩ := ih rfl
    exact ⟨_, _, .absorbed hx (lacks_of_not hready hended) hi (List.cons_ne_nil b rest) ht hrest⟩

/-- There is no other way for a read to go. -/
theorem reads_read (n : Nat) (s : InflateStream σ) :
    ∃ asks fault, Reads n s asks fault (s.read n).1 (s.read n).2 := by
  unfold read
  split
  · next x hx => exact reads_readExpanded n hx
  · next hx => exact ⟨_, _, .passed hx rfl⟩

omit [ByteStream σ] in
/-- Taking bytes in leaves the stream below as it is. -/
theorem of_absorb {s s' : InflateStream σ} {x : Expander} {bs : Bytes} {fault : Option ExpandError}
    (h : s.absorb x bs = (fault, s')) : s'.inner = s.inner ∧ s'.expander.isSome = true := by
  cases (Prod.mk.inj h).2
  exact ⟨rfl, rfl⟩

/-- The stream below is asked one time after the other, and nothing else becomes of it. -/
def Asked : σ → List (Asking σ) → σ → Prop
  | inner, [], inner' => inner' = inner
  | inner, (s, n) :: asks, inner' =>
    s.inner = inner ∧ Asked (ByteStream.read n inner).2 asks inner'

namespace Reads

variable {n : Nat} {s s' : InflateStream σ} {asks : List (Asking σ)} {fault : Option ExpandError}
  {a : Poll Bytes}

theorem asked (h : Reads n s asks fault a s') : Asked s.inner asks s'.inner := by
  induction h with
  | given | exhausted => rfl
  | passed _ hr | interrupted _ _ hr _ | finished _ _ hr =>
    refine ⟨rfl, ?_⟩
    rw [hr]
    rfl
  | faulted _ _ hr _ ha =>
    refine ⟨rfl, ?_⟩
    rw [hr]
    exact (of_absorb ha).1
  | absorbed _ _ hr _ ha _ ih =>
    rw [(of_absorb ha).1] at ih
    exact ⟨rfl, by rwa [hr]⟩

theorem isSome_expander (h : Reads n s asks fault a s') :
    s'.expander.isSome = s.expander.isSome := by
  induction h with
  | faulted hx _ _ _ ha =>
    rw [(of_absorb ha).2, hx]
    rfl
  | absorbed hx _ _ _ ha _ ih =>
    rw [ih, (of_absorb ha).2, hx]
    rfl
  | _ => rfl

/-- A read fails with the error that bytes have met on its way. -/
theorem failed_of_fault (h : Reads n s asks fault a s') :
    ∀ e ∈ fault, a = .failed (streamError e) := by
  induction h with
  | faulted =>
    rintro e ⟨⟩
    rfl
  | absorbed _ _ _ _ _ _ ih => exact ih
  | _ =>
    intro e he
    cases he

/-- With compression the stream below is asked only when there is nothing to be given. -/
theorem lacks (h : Reads n s asks fault a s') (hx : s.expander.isSome = true) :
    ∀ ask ∈ asks, ask.1.Lacks ∧ ask.2 = chunkSize := by
  induction h with
  | passed hnone =>
    rw [hnone] at hx
    cases hx
  | given | exhausted =>
    intro ask hask
    cases hask
  | interrupted _ hs | finished _ hs | faulted _ hs => simpa using hs
  | absorbed _ hs _ _ ha _ ih =>
    intro ask hask
    rcases List.mem_cons.1 hask with rfl | hask
    · exact ⟨hs, rfl⟩
    · exact ih (of_absorb ha).2 ask hask

/-- A read that has something to give, or finds the client at its end, asks for nothing. -/
theorem silent (h : Reads n s asks fault a s') (hx : s.expander.isSome = true)
    (hs : s.ready ≠ [] ∨ s.ended = true) : asks = [] ∧ fault = none := by
  have hnot (hlacks : s.Lacks) : False := by
    rcases hs with hready | hended
    · exact hready hlacks.ready_eq
    · rw [hlacks.ended_eq] at hended
      cases hended
  cases h with
  | given | exhausted => exact ⟨rfl, rfl⟩
  | passed hnone =>
    rw [hnone] at hx
    cases hx
  | interrupted _ h | finished _ h | faulted _ h | absorbed _ h => exact (hnot h).elim

end Reads

/-! ### What every read keeps -/

/-- The parts of a message, if one has begun, are no more than a message may have. -/
def Fits (s : InflateStream σ) : Prop :=
  ∀ x ∈ s.expander, x.Fits

/-- The bytes that are kept for a frame do not begin with one. -/
structure Settled (s : InflateStream σ) : Prop where
  incomplete : WireFrame.Incomplete s.raw
  not_tooLarge : FrameHeader.read s.raw ≠ .tooLarge

omit [ByteStream σ] in
theorem settled_of_raw_eq_nil {s : InflateStream σ} (h : s.raw = []) : s.Settled where
  incomplete f hf := by
    rw [h] at hf
    exact f.bytes_ne_nil (List.prefix_nil.1 hf)
  not_tooLarge := by
    rw [h]
    simp [FrameHeader.read]

omit [ByteStream σ] in
theorem fits_make (inner : σ) (enabled : Bool) : (make inner enabled).Fits := by
  cases enabled with
  | true =>
    rintro x ⟨⟩
    exact Expander.fits_start
  | false =>
    intro x hx
    cases hx

omit [ByteStream σ] in
theorem Fits.absorb {s : InflateStream σ} {x : Expander} (h : s.Fits) (hx : s.expander = some x)
    (inner : σ) (bs : Bytes) : (InflateStream.absorb { s with inner } x bs).2.Fits := by
  rintro y ⟨⟩
  exact (h x hx).process _

omit [ByteStream σ] in
theorem settled_absorb (s : InflateStream σ) (x : Expander) (bs : Bytes)
    (h : (s.absorb x bs).1 = none) : (s.absorb x bs).2.Settled := by
  obtain ⟨hincomplete, hr⟩ := x.rest_of_process (s.raw ++ bs) h
  exact ⟨hincomplete, hr⟩

namespace Reads

variable {n : Nat} {s s' : InflateStream σ} {asks : List (Asking σ)} {fault : Option ExpandError}
  {a : Poll Bytes}

theorem fits (h : Reads n s asks fault a s') (hs : s.Fits) : s'.Fits := by
  induction h with
  | faulted hx _ _ _ ha =>
    cases (Prod.mk.inj ha).2
    exact hs.absorb hx _ _
  | absorbed hx _ _ _ ha _ ih =>
    cases (Prod.mk.inj ha).2
    exact ih (hs.absorb hx _ _)
  | _ => exact hs

/-- A read without a fault leaves no frame behind. -/
theorem settled (h : Reads n s asks none a s') (hs : s.Settled) : s'.Settled := by
  generalize hfault : none = fault at h
  induction h with
  | finished => exact settled_of_raw_eq_nil rfl
  | faulted => cases hfault
  | absorbed _ _ _ _ ha _ ih =>
    obtain ⟨hnone, rfl⟩ := Prod.mk.inj ha
    exact ih (settled_absorb _ _ _ hnone) hfault
  | _ => exact ⟨hs.incomplete, hs.not_tooLarge⟩

end Reads

/-! ### A stream in use -/

/-- Something is done to a stream, or the stream below changes, as when bytes arrive. -/
inductive Use (σ : Type) where
  | act (a : StreamAct)
  | change (f : σ → σ)

def use (u : Use σ) (s : InflateStream σ) : InflateStream σ :=
  match u with
  | .act (.read n) => (s.read n).2
  | .act (.write bs) => (s.write bs).2
  | .act .flush => s.flush.2
  | .act .shutdown => s.shutdown.2
  | .change f => { s with inner := f s.inner }

def after (uses : List (Use σ)) (s : InflateStream σ) : InflateStream σ :=
  uses.foldl (fun s u => s.use u) s

/-- No read has met bytes that could not be expanded. -/
def Unbroken : List (Use σ) → InflateStream σ → Prop
  | [], _ => True
  | u :: uses, s =>
    (∀ n, u = .act (.read n) → ∃ asks, Reads n s asks none (s.read n).1 (s.read n).2) ∧
      Unbroken uses (s.use u)

/-- Only a read does more than to pass on a call to the stream below. -/
theorem use_cases (u : Use σ) (s : InflateStream σ) :
    (∃ n, u = .act (.read n)) ∨ ∃ inner, s.use u = { s with inner } := by
  match u with
  | .act (.read n) => exact .inl ⟨n, rfl⟩
  | .act (.write _) | .act .flush | .act .shutdown | .change _ => exact .inr ⟨_, rfl⟩

theorem fits_use {s : InflateStream σ} (h : s.Fits) (u : Use σ) : (s.use u).Fits := by
  rcases use_cases u s with ⟨n, rfl⟩ | ⟨inner, hinner⟩
  · obtain ⟨asks, fault, hreads⟩ := reads_read n s
    exact hreads.fits h
  · rw [hinner]
    exact h

theorem isSome_expander_use (u : Use σ) (s : InflateStream σ) :
    (s.use u).expander.isSome = s.expander.isSome := by
  rcases use_cases u s with ⟨n, rfl⟩ | ⟨inner, hinner⟩
  · obtain ⟨asks, fault, hreads⟩ := reads_read n s
    exact hreads.isSome_expander
  · rw [hinner]

theorem fits_after {s : InflateStream σ} (h : s.Fits) (uses : List (Use σ)) :
    (s.after uses).Fits := by
  induction uses generalizing s with
  | nil => exact h
  | cons u uses ih => exact ih (fits_use h u)

theorem isSome_expander_after (uses : List (Use σ)) (s : InflateStream σ) :
    (s.after uses).expander.isSome = s.expander.isSome := by
  induction uses generalizing s with
  | nil => rfl
  | cons u uses ih => exact (ih (s.use u)).trans (isSome_expander_use u s)

theorem settled_after {s : InflateStream σ} (h : s.Settled) {uses : List (Use σ)}
    (hu : s.Unbroken uses) : (s.after uses).Settled := by
  induction uses generalizing s with
  | nil => exact h
  | cons u uses ih =>
    have hnext : (s.use u).Settled := by
      rcases use_cases u s with ⟨n, rfl⟩ | ⟨inner, hinner⟩
      · obtain ⟨asks, hreads⟩ := hu.1 n rfl
        exact hreads.settled h
      · rw [hinner]
        exact ⟨h.incomplete, h.not_tooLarge⟩
    exact ih hnext hu.2

/-- Without compression a stream keeps nothing. -/
structure Passes (s : InflateStream σ) : Prop where
  expander_eq : s.expander = none
  raw_eq : s.raw = []
  ready_eq : s.ready = []
  ended_eq : s.ended = false

theorem Passes.reads {s : InflateStream σ} (h : s.Passes) (n : Nat) :
    Reads n s [(s, n)] none (s.read n).1 (s.read n).2 := by
  unfold read
  split
  · next x hx =>
    rw [h.expander_eq] at hx
    cases hx
  · exact .passed h.expander_eq rfl

theorem Passes.after {s : InflateStream σ} (h : s.Passes) (uses : List (Use σ)) :
    (s.after uses).Passes := by
  induction uses generalizing s with
  | nil => exact h
  | cons u uses ih =>
    have hnext : (s.use u).Passes := by
      rcases use_cases u s with ⟨n, rfl⟩ | ⟨inner, hinner⟩
      · simp only [use, read, h.expander_eq]
        exact ⟨rfl, h.raw_eq, h.ready_eq, h.ended_eq⟩
      · rw [hinner]
        exact ⟨h.expander_eq, h.raw_eq, h.ready_eq, h.ended_eq⟩
    exact ih hnext

/-- What is not a read takes nothing off what is to be read from the stream below. -/
theorem unread_use {view : σ → Bytes} (hview : ByteStream.Unread view) {a : StreamAct}
    (ha : a.isRead = false) (s : InflateStream σ) : view (s.use (.act a)).inner = view s.inner := by
  have hact := hview a s.inner
  have hanswer := (StreamAnswer.silent_of_not_isRead
    ((ByteStream.isRead_act a s.inner).trans ha)).1
  rw [hanswer, List.nil_append] at hact
  cases a with
  | read n => cases ha
  | _ => exact hact.symm

/-- What a stream keeps and what it asks for, whatever is done to it and becomes of the stream below.
With compression the parts of a message are no more than 16 MiB, and the bytes kept for a frame hold no
whole one until a read has met bytes that could not be expanded. A read asks the stream below only
while nothing is ready and the client has not ended. Without compression nothing is kept. -/
theorem buffers_bounded (inner : σ) (uses : List (Use σ)) :
    let s := (make inner true).after uses
    let plain := (make inner false).after uses
    ((∀ x ∈ s.expander, ∀ m ∈ x.message, m.parts.flatten.length ≤ 16 * 1024 * 1024 ∧
          m.opcode ≠ Opcode.continuation ∧ Opcode.isControl m.opcode = false) ∧
        ((make inner true).Unbroken uses →
          WireFrame.Incomplete s.raw ∧ s.raw.length < 16 * 1024 * 1024 + 14) ∧
        (∀ n, ∃ asks fault, Reads n s asks fault (s.read n).1 (s.read n).2 ∧
          Asked s.inner asks (s.read n).2.inner ∧
          (∀ e ∈ fault, (s.read n).1 = .failed (streamError e)) ∧
          ∀ ask ∈ asks, ask.1.ready = [] ∧ ask.1.ended = false ∧ ask.2 = 8 * 1024) ∧
        (∀ n, s.ready ≠ [] ∨ s.ended = true → Reads n s [] none (s.read n).1 (s.read n).2) ∧
        ∀ view : σ → Bytes, ByteStream.Unread view → ∀ a : StreamAct, a.isRead = false →
          view (s.use (.act a)).inner = view s.inner) ∧
      plain.expander = none ∧ plain.raw = [] ∧ plain.ready = [] ∧
        ∀ n, (plain.read n).1 = (ByteStream.read n plain.inner).1 ∧
          Reads n plain [(plain, n)] none (plain.read n).1 (plain.read n).2 := by
  intro s plain
  have hfits : s.Fits := fits_after (fits_make inner true) uses
  have hx : s.expander.isSome = true := isSome_expander_after uses (make inner true)
  have hplain : plain.Passes := Passes.after ⟨rfl, rfl, rfl, rfl⟩ uses
  refine ⟨⟨fun x hx m hm => ?_, fun hu => ?_, fun n => ?_, fun n hs => ?_,
    fun view hview a ha => unread_use hview ha s⟩, hplain.expander_eq, hplain.raw_eq,
    hplain.ready_eq, fun n => ⟨?_, hplain.reads n⟩⟩
  · obtain ⟨hsize, hle, hopcode, hcontrol⟩ := hfits x hx m hm
    exact ⟨hsize ▸ hle, hopcode, hcontrol⟩
  · have hsettled := settled_after (settled_of_raw_eq_nil rfl) hu
    exact ⟨hsettled.incomplete,
      WireFrame.length_lt_of_incomplete hsettled.incomplete hsettled.not_tooLarge⟩
  · obtain ⟨asks, fault, hreads⟩ := reads_read n s
    refine ⟨asks, fault, hreads, hreads.asked, hreads.failed_of_fault, fun ask hask => ?_⟩
    obtain ⟨⟨hready, hended⟩, hroom⟩ := hreads.lacks hx ask hask
    exact ⟨hready, hended, hroom⟩
  · obtain ⟨asks, fault, hreads⟩ := reads_read n s
    obtain ⟨rfl, rfl⟩ := hreads.silent hx hs
    exact hreads
  · simp only [read, hplain.expander_eq]

/-- Without compression one asking may go beyond 8192 bytes, and get them. -/
theorem asks_beyond_chunk :
    let s := make (⟨[.chunk 0 (List.replicate (8 * 1024) 0)]⟩ : Schedule) false
    ∃ asks bs, Reads (8 * 1024 + 1) s asks none (.ready bs) (s.read (8 * 1024 + 1)).2 ∧
      (s.read (8 * 1024 + 1)).1 = .ready bs ∧ bs.length = 8 * 1024 + 1 ∧
      ∃ ask ∈ asks, ¬ ask.2 ≤ 8 * 1024 := by
  intro s
  have hs : s.Passes := ⟨rfl, rfl, rfl, rfl⟩
  refine ⟨_, (0 :: List.replicate (8 * 1024) 0).take (8 * 1024 + 1), hs.reads _, rfl, ?_,
    _, List.mem_singleton_self _, Nat.not_succ_le_self _⟩
  rw [List.length_take, List.length_cons, List.length_replicate, Nat.min_self]

end InflateStream

end Switchyard
