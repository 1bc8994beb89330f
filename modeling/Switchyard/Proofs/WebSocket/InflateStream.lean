import Switchyard.Proofs.Stream.Schedule
import Switchyard.Proofs.WebSocket.Expander
import Switchyard.WebSocket.InflateStream

/-!
# What is read from a stream that expands messages

Whatever the sizes of the reads, the chunks in which the client's bytes arrive, and the waits and errors
in between: the reads yield the rewriting of the client's bytes, once, in order, and up to the end
(`yielded_eq_rewriting`). `Reading` is what holds between reads: what was yielded, what is ready and
what is still raw make up what the bytes taken so far are expanded to.
-/

namespace Switchyard

/-! ### Chunk by chunk -/

namespace Expander

/-- Chunks can be taken in one after the other without an error. The bytes of a frame that is not
complete are kept for the next chunk. -/
def Takes (x : Expander) (raw : Bytes) : List Bytes → Prop
  | [] => True
  | chunk :: chunks =>
    (x.process (raw ++ chunk)).error = none ∧
      (x.process (raw ++ chunk)).expander.Takes (x.process (raw ++ chunk)).rest chunks

instance Takes.decidable (x : Expander) (raw : Bytes) :
    (chunks : List Bytes) → Decidable (x.Takes raw chunks)
  | [] => inferInstanceAs (Decidable True)
  | chunk :: chunks =>
    have := Takes.decidable (x.process (raw ++ chunk)).expander (x.process (raw ++ chunk)).rest chunks
    inferInstanceAs (Decidable (_ ∧ _))

/-- Chunks that can be taken in one after the other can be taken in as one. -/
theorem Takes.process {y : Expander} {taken : Bytes} (chunks : List Bytes)
    (hy : (y.process taken).error = none)
    (h : (y.process taken).expander.Takes (y.process taken).rest chunks) :
    (y.process (taken ++ chunks.flatten)).error = none := by
  induction chunks generalizing taken with
  | nil =>
    rw [List.flatten_nil, List.append_nil]
    exact hy
  | cons chunk chunks ih =>
    obtain ⟨hchunk, hrest⟩ := h
    have happend := process_append y taken chunk hy
    rw [List.flatten_cons, ← List.append_assoc]
    refine ih ?_ ?_
    · rw [happend]
      exact hchunk
    · rw [happend]
      exact hrest

theorem process_nil (x : Expander) : x.process [] = ⟨x, [], [], none⟩ :=
  process_of_incomplete (fun f h => f.bytes_ne_nil (List.prefix_nil.1 h))
    (by simp [FrameHeader.read])

end Expander

namespace InflateStream

/-! ### Runs of reads -/

variable {σ : Type} [ByteStream σ]

/-- Reads with room for so many bytes each, one after the other. -/
def reads : List Nat → InflateStream σ → List (Poll Bytes) × InflateStream σ
  | [], s => ([], s)
  | n :: ns, s =>
    let (answer, s) := s.read n
    let (answers, s) := reads ns s
    (answer :: answers, s)

/-- The bytes that an answer brings. -/
def bytesOf : Poll Bytes → Bytes
  | .ready bs => bs
  | .failed _ => []
  | .pending => []

/-- All bytes that answers bring. -/
def yielded (answers : List (Poll Bytes)) : Bytes :=
  answers.flatMap bytesOf

/-- The answer says that the reader has to wait, or fails. -/
def isInterruption : Poll Bytes → Bool
  | .ready _ => false
  | .failed _ => true
  | .pending => true

/-- The answers without those that bring bytes or the end. -/
def interruptions (answers : List (Poll Bytes)) : List (Poll Bytes) :=
  answers.filter isInterruption

theorem reads_cons (n : Nat) (ns : List Nat) (s : InflateStream σ) :
    s.reads (n :: ns) =
      ((s.read n).1 :: ((s.read n).2.reads ns).1, ((s.read n).2.reads ns).2) := rfl

theorem yielded_cons (a : Poll Bytes) (answers : List (Poll Bytes)) :
    yielded (a :: answers) = bytesOf a ++ yielded answers := rfl

theorem interruptions_cons (a : Poll Bytes) (answers : List (Poll Bytes)) :
    interruptions (a :: answers) = interruptions [a] ++ interruptions answers := by
  rw [interruptions, interruptions, interruptions, ← List.filter_append]
  rfl

/-- An answer that does not say that there are no bytes brings some, or is an interruption. -/
theorem one_le_of_ne_ready_nil {a : Poll Bytes} (h : a ≠ .ready []) :
    1 ≤ (bytesOf a).length + (interruptions [a]).length := by
  cases a with
  | ready bs =>
    have hpos : 0 < bs.length := List.length_pos_iff.2 fun hnil => h (congrArg Poll.ready hnil)
    exact Nat.le_add_right_of_le hpos
  | failed e => exact Nat.le_refl 1
  | pending => exact Nat.le_refl 1

/-- A read that had room for bytes got none: the stream has ended. -/
def ReportsEnd (sizes : List Nat) (answers : List (Poll Bytes)) : Prop :=
  ∃ n, 0 < n ∧ (n, Poll.ready []) ∈ sizes.zip answers

theorem ReportsEnd.cons {sizes : List Nat} {answers : List (Poll Bytes)}
    (h : ReportsEnd sizes answers) (n : Nat) (a : Poll Bytes) :
    ReportsEnd (n :: sizes) (a :: answers) := by
  obtain ⟨m, hm, hmem⟩ := h
  exact ⟨m, hm, List.mem_cons_of_mem _ hmem⟩

/-- The end is reported when there are more reads with room for bytes than there is left to come:
each of them takes a byte or an interruption away from that, or reports the end. -/
theorem reportsEnd_of_left {Left : InflateStream σ → Nat → Prop}
    (hread : ∀ {s : InflateStream σ} {k : Nat} (n : Nat), Left s k →
      ∃ k', Left (s.read n).2 k' ∧
        (bytesOf (s.read n).1).length + (interruptions [(s.read n).1]).length + k' ≤ k)
    {s : InflateStream σ} {k : Nat} (h : Left s k) {sizes : List Nat}
    (hlt : k < (sizes.filter (0 < ·)).length) : ReportsEnd sizes (s.reads sizes).1 := by
  induction sizes generalizing s k with
  | nil => exact absurd hlt (Nat.not_lt_zero k)
  | cons n ns ih =>
    obtain ⟨k', hleft, hle⟩ := hread n h
    rw [reads_cons]
    by_cases hn : 0 < n
    · rw [List.filter_cons_of_pos (by simpa using hn), List.length_cons] at hlt
      by_cases ha : (s.read n).1 = .ready []
      · exact ⟨n, hn, by rw [ha]; exact List.mem_cons_self⟩
      · have hone := one_le_of_ne_ready_nil ha
        exact (ih hleft (by omega)).cons n _
    · -- A read without room says nothing about the end.
      rw [List.filter_cons_of_neg (by simpa using hn)] at hlt
      exact (ih hleft (by omega)).cons n _

end InflateStream

/-! ### Between reads -/

/-- What all bytes of a schedule are expanded to, with an incomplete frame behind it. -/
def Schedule.expanded (schedule : Schedule) : Bytes :=
  (Expander.start.process schedule.bytes).output ++ (Expander.start.process schedule.bytes).rest

/-- Reads from a schedule have yielded `out`, with some interruptions. Before the end of the
schedule, the bytes that were taken expand to what was yielded and what is ready; behind it, nothing
is left but what is ready. -/
structure Reading (schedule : Schedule) (s : InflateStream Schedule) (out : Bytes)
    (interrupted : List (Poll Bytes)) : Prop where
  interruptions_eq : interrupted ++ s.inner.interruptions = schedule.interruptions
  expander_isSome : s.expander.isSome = true
  taken : s.ended = false → ∃ bs, bs ++ s.inner.bytes = schedule.bytes ∧
    Expander.start.process bs = ⟨s.expander.getD .start, out ++ s.ready, s.raw, none⟩
  finished : s.ended = true → s.inner.interruptions = [] ∧ out ++ s.ready = schedule.expanded

namespace Reading

open InflateStream

variable {schedule : Schedule} {s s' : InflateStream Schedule} {out : Bytes}
  {interrupted : List (Poll Bytes)}

theorem start (schedule : Schedule) : Reading schedule (.make schedule true) [] [] where
  interruptions_eq := rfl
  expander_isSome := rfl
  taken _ := ⟨[], rfl, Expander.process_nil _⟩
  finished h := by cases h

/-- What was yielded is the beginning of what all bytes expand to. -/
theorem append_ready_prefix (h : Reading schedule s out interrupted) :
    out ++ s.ready <+: schedule.expanded := by
  cases hended : s.ended with
  | true => exact ⟨[], by rw [List.append_nil, (h.finished hended).2]⟩
  | false =>
    obtain ⟨bs, hbs, hprocess⟩ := h.taken hended
    have happend := Expander.process_append .start bs s.inner.bytes (by rw [hprocess])
    rw [Schedule.expanded, ← hbs, happend, hprocess]
    exact ⟨_, (List.append_assoc _ _ _).symm⟩

/-- Bytes that are ready are given. -/
theorem give (h : Reading schedule s out interrupted) (n : Nat) :
    Reading schedule (s.give n).2 (out ++ bytesOf (s.give n).1)
      (interrupted ++ interruptions [(s.give n).1]) where
  interruptions_eq := by
    rw [← h.interruptions_eq, List.append_assoc]
    rfl
  expander_isSome := h.expander_isSome
  taken hended := by
    obtain ⟨bs, hbs, hprocess⟩ := h.taken hended
    refine ⟨bs, hbs, ?_⟩
    rw [hprocess, List.append_assoc]
    show _ = Expansion.mk _ (out ++ (s.ready.take n ++ s.ready.drop n)) _ _
    rw [List.take_append_drop]
    rfl
  finished hended := by
    refine ⟨(h.finished hended).1, ?_⟩
    rw [← (h.finished hended).2, List.append_assoc]
    show out ++ (s.ready.take n ++ s.ready.drop n) = _
    rw [List.take_append_drop]

/-- A wait or an error is passed on, and nothing is lost. -/
theorem interrupt (h : Reading schedule s out interrupted) {a : Poll Bytes} {inner : Schedule}
    (ha : ∀ bs, a ≠ .ready bs) (hr : ByteStream.read chunkSize s.inner = (a, inner)) :
    Reading schedule { s with inner } out (interrupted ++ [a]) := by
  obtain ⟨hbytes, hinterruptions⟩ := Schedule.interruptions_of_read hr ha
  refine ⟨?_, h.expander_isSome, fun hended => ?_, fun hended => ?_⟩
  · rw [← h.interruptions_eq, hinterruptions, List.append_assoc]
    rfl
  · obtain ⟨bs, hbs, hprocess⟩ := h.taken hended
    exact ⟨bs, by rw [← hbs, hbytes], hprocess⟩
  · obtain ⟨hnone, hout⟩ := h.finished hended
    rw [hnone] at hinterruptions
    cases hinterruptions

/-- At the end of the stream, the bytes of an incomplete frame become ready. -/
theorem finish (h : Reading schedule s out interrupted) (hended : s.ended = false)
    (hready : s.ready = []) {inner : Schedule}
    (hr : ByteStream.read chunkSize s.inner = (.ready [], inner)) :
    Reading schedule { s with inner, ended := true, raw := [], ready := s.raw } out
      interrupted := by
  obtain ⟨harrivals, rfl⟩ := Schedule.arrivals_of_read (by decide) hr
  obtain ⟨bs, hbs, hprocess⟩ := h.taken hended
  refine ⟨h.interruptions_eq, h.expander_isSome, nofun, fun _ => ⟨?_, ?_⟩⟩
  · show s.inner.interruptions = []
    rw [Schedule.interruptions, harrivals]
    rfl
  have hnil : s.inner.bytes = [] := by rw [Schedule.bytes, harrivals]; rfl
  rw [hnil, List.append_nil] at hbs
  rw [Schedule.expanded, ← hbs, hprocess, hready, List.append_nil]

/-- What the bytes that arrive are expanded to, behind those that were taken before. -/
theorem process_taken (h : Reading schedule s out interrupted) (hended : s.ended = false)
    {x : Expander} (hx : s.expander = some x) {inner : Schedule} {bs : Bytes}
    (hr : ByteStream.read chunkSize s.inner = (.ready bs, inner)) :
    ∃ taken, taken ++ bs ++ inner.bytes = schedule.bytes ∧
      Expander.start.process taken = ⟨x, out ++ s.ready, s.raw, none⟩ ∧
      Expander.start.process (taken ++ bs) =
        (x.process (s.raw ++ bs)).behind (out ++ s.ready) := by
  obtain ⟨hbytes, -⟩ := Schedule.bytes_of_read hr
  obtain ⟨taken, htaken, hprocess⟩ := h.taken hended
  rw [hx, Option.getD_some] at hprocess
  have happend := Expander.process_append .start taken bs (by rw [hprocess])
  rw [hprocess] at happend
  refine ⟨taken, ?_, hprocess, happend⟩
  rw [← htaken, hbytes, List.append_assoc]

/-- Bytes that are taken in without an error. -/
theorem absorbed (h : Reading schedule s out interrupted) (hended : s.ended = false) {x : Expander}
    (hx : s.expander = some x) {inner : Schedule} {bs : Bytes}
    (hr : ByteStream.read chunkSize s.inner = (.ready bs, inner))
    (herror : (x.process (s.raw ++ bs)).error = none) :
    Reading schedule (InflateStream.absorb { s with inner } x bs).2 out interrupted := by
  obtain ⟨taken, htaken, -, hprocess⟩ := h.process_taken hended hx hr
  refine ⟨?_, rfl, fun _ => ⟨taken ++ bs, htaken, ?_⟩, fun h => ?_⟩
  · rw [← h.interruptions_eq, (Schedule.bytes_of_read hr).2]
    rfl
  · rw [hprocess]
    simp only [Expansion.behind, InflateStream.absorb, Option.getD_some, List.append_assoc, herror]
  · exact absurd (hended.symm.trans h) (by simp)

/-- Bytes that arrive are taken in. They cannot meet an error if all bytes meet none. -/
theorem absorb (hok : (Expander.start.process schedule.bytes).error = none)
    (h : Reading schedule s out interrupted) (hended : s.ended = false) {x : Expander}
    (hx : s.expander = some x) {inner : Schedule} {bs : Bytes}
    (hr : ByteStream.read chunkSize s.inner = (.ready bs, inner)) :
    (InflateStream.absorb { s with inner } x bs).1 = none ∧
      Reading schedule (InflateStream.absorb { s with inner } x bs).2 out interrupted := by
  obtain ⟨taken, htaken, -, hprocess⟩ := h.process_taken hended hx hr
  have herror : (x.process (s.raw ++ bs)).error = none := by
    cases he : (Expander.start.process (taken ++ bs)).error with
    | none => rwa [hprocess] at he
    | some e =>
      -- All bytes would meet the same error.
      have hmore := Expander.process_append_of_error .start (taken ++ bs) inner.bytes he
      rw [htaken] at hmore
      rw [hmore] at hok
      exact absurd (he.symm.trans hok) (by simp)
  exact ⟨herror, h.absorbed hended hx hr herror⟩

/-- One read: what it yields is next in what all bytes expand to, and if it has room and gets no
bytes, then everything was yielded. -/
theorem readExpanded (hok : (Expander.start.process schedule.bytes).error = none)
    (h : Reading schedule s out interrupted) {n : Nat} {x : Expander} (hx : s.expander = some x)
    {a : Poll Bytes} (hr : s.readExpanded n x = (a, s')) :
    Reading schedule s' (out ++ bytesOf a) (interrupted ++ interruptions [a]) ∧
      (0 < n → a = .ready [] → s'.ended = true ∧ s'.ready = []) := by
  -- The rounds of a read: the invariant goes from each to the next until the read is answered.
  fun_induction InflateStream.readExpanded n x s with
  | case1 x s hready =>
    obtain ⟨rfl, rfl⟩ := Prod.mk.inj hr
    refine ⟨h.give n, fun hn hnone => absurd hready ?_⟩
    have htake : s.ready.take n = [] := Poll.ready.inj hnone
    rw [List.take_eq_nil_iff] at htake
    exact Decidable.not_not.2 (htake.resolve_left (Nat.ne_of_gt hn))
  | case2 x s hready hended =>
    cases hr
    rw [show bytesOf (.ready []) = [] from rfl, show interruptions [.ready []] = [] from rfl,
      List.append_nil, List.append_nil]
    exact ⟨h, fun _ _ => ⟨hended, Decidable.not_not.1 hready⟩⟩
  | case3 x s hready hended inner hi =>
    cases hr
    rw [show bytesOf .pending = [] from rfl, List.append_nil]
    exact ⟨h.interrupt (by simp) hi, by simp⟩
  | case4 x s hready hended e inner hi =>
    cases hr
    rw [show bytesOf (.failed e) = [] from rfl, List.append_nil]
    exact ⟨h.interrupt (by simp) hi, by simp⟩
  | case5 x s hready hended inner hi =>
    have hfinish := h.finish (Bool.eq_false_iff.2 hended) (Decidable.not_not.1 hready) hi
    obtain ⟨rfl, rfl⟩ := Prod.mk.inj hr
    refine ⟨hfinish.give n, fun hn hnone => ⟨rfl, ?_⟩⟩
    have htake : s.raw.take n = [] := Poll.ready.inj hnone
    rw [List.take_eq_nil_iff] at htake
    show s.raw.drop n = []
    rw [htake.resolve_left (Nat.ne_of_gt hn), List.drop_nil]
  | case6 x s hready hended b rest inner hi e t ht =>
    obtain ⟨hnone, -⟩ := h.absorb hok (Bool.eq_false_iff.2 hended) hx hi
    rw [ht] at hnone
    cases hnone
  | case7 x s hready hended b rest inner hi t ht ih =>
    obtain ⟨-, hreading⟩ := h.absorb hok (Bool.eq_false_iff.2 hended) hx hi
    rw [ht] at hreading
    obtain ⟨y, hy⟩ := Option.isSome_iff_exists.1 hreading.expander_isSome
    exact ih hreading (by rw [hy]; rfl) hr

theorem read (hok : (Expander.start.process schedule.bytes).error = none)
    (h : Reading schedule s out interrupted) (n : Nat) :
    Reading schedule (s.read n).2 (out ++ bytesOf (s.read n).1)
        (interrupted ++ interruptions [(s.read n).1]) ∧
      (0 < n → (s.read n).1 = .ready [] → (s.read n).2.ended = true ∧ (s.read n).2.ready = []) := by
  obtain ⟨x, hx⟩ := Option.isSome_iff_exists.1 h.expander_isSome
  have hr : s.read n = s.readExpanded n x := by rw [InflateStream.read, hx]
  rw [hr]
  exact h.readExpanded hok hx rfl

/-- What holds between reads holds after any run of them. -/
theorem reads (hok : (Expander.start.process schedule.bytes).error = none)
    (h : Reading schedule s out interrupted) (sizes : List Nat) :
    Reading schedule (s.reads sizes).2 (out ++ yielded (s.reads sizes).1)
      (interrupted ++ interruptions (s.reads sizes).1) := by
  induction sizes generalizing s out interrupted with
  | nil => simpa [InflateStream.reads, yielded, interruptions] using h
  | cons n ns ih =>
    rw [reads_cons, yielded_cons, interruptions_cons, ← List.append_assoc, ← List.append_assoc]
    exact ih (h.read hok n).1

/-- Behind the end nothing more comes. -/
theorem reads_of_ended (hok : (Expander.start.process schedule.bytes).error = none)
    (h : Reading schedule s out interrupted) (hended : s.ended = true) (hready : s.ready = [])
    (sizes : List Nat) :
    out ++ yielded (s.reads sizes).1 = schedule.expanded ∧
      interrupted ++ interruptions (s.reads sizes).1 = schedule.interruptions := by
  obtain ⟨hnone, hout⟩ := h.finished hended
  have hinterrupted := h.interruptions_eq
  rw [hready, List.append_nil] at hout
  rw [hnone, List.append_nil] at hinterrupted
  have hlast := h.reads hok sizes
  -- What was yielded and met before is already all there is, so later reads add nothing to it.
  have hmore := hlast.append_ready_prefix.length_le
  have hmore' := congrArg List.length hlast.interruptions_eq
  simp only [List.length_append, ← hout, ← hinterrupted] at hmore hmore'
  have hyielded : yielded (s.reads sizes).1 = [] := List.eq_nil_of_length_eq_zero (by omega)
  have hinterruptions : interruptions (s.reads sizes).1 = [] :=
    List.eq_nil_of_length_eq_zero (by omega)
  rw [hyielded, hinterruptions, List.append_nil, List.append_nil]
  exact ⟨hout, hinterrupted⟩

/-- When the end is reported, everything was yielded and every interruption was met. -/
theorem yielded_of_reportsEnd (hok : (Expander.start.process schedule.bytes).error = none)
    (h : Reading schedule s out interrupted) {sizes : List Nat}
    (hend : ReportsEnd sizes (s.reads sizes).1) :
    out ++ yielded (s.reads sizes).1 = schedule.expanded ∧
      interrupted ++ interruptions (s.reads sizes).1 = schedule.interruptions := by
  induction sizes generalizing s out interrupted with
  | nil =>
    obtain ⟨n, -, hmem⟩ := hend
    cases hmem
  | cons n ns ih =>
    obtain ⟨hread, hlast⟩ := h.read hok n
    rw [reads_cons] at hend ⊢
    rw [yielded_cons, interruptions_cons, ← List.append_assoc, ← List.append_assoc]
    obtain ⟨m, hm, hmem⟩ := hend
    rcases List.mem_cons.1 hmem with heq | hmem
    · -- This is the read that reports the end.
      obtain ⟨rfl, ha⟩ := Prod.mk.inj heq
      obtain ⟨hended, hready⟩ := hlast hm ha.symm
      exact hread.reads_of_ended hok hended hready ns
    · exact ih hread ⟨m, hm, hmem⟩

/-- So many bytes and interruptions are still to come. -/
def Left (schedule : Schedule) (s : InflateStream Schedule) (k : Nat) : Prop :=
  ∃ out interrupted, Reading schedule s out interrupted ∧
    interrupted.length + out.length + k = schedule.interruptions.length + schedule.expanded.length

theorem left_read (hok : (Expander.start.process schedule.bytes).error = none) {k : Nat} (n : Nat)
    (h : Left schedule s k) :
    ∃ k', Left schedule (s.read n).2 k' ∧
      (bytesOf (s.read n).1).length + (interruptions [(s.read n).1]).length + k' ≤ k := by
  obtain ⟨out, interrupted, hreading, hk⟩ := h
  obtain ⟨hread, -⟩ := hreading.read hok n
  have hout := hread.append_ready_prefix.length_le
  have hinterrupted := congrArg List.length hread.interruptions_eq
  rw [List.length_append, List.length_append] at hout hinterrupted
  refine ⟨k - ((bytesOf (s.read n).1).length + (interruptions [(s.read n).1]).length),
    ⟨_, _, hread, ?_⟩, ?_⟩
  · rw [List.length_append, List.length_append]
    omega
  · omega

/-- Enough reads report the end. -/
theorem reportsEnd_of_lt (hok : (Expander.start.process schedule.bytes).error = none)
    (h : Reading schedule s [] []) {sizes : List Nat}
    (hlt : schedule.interruptions.length + schedule.expanded.length <
      (sizes.filter (0 < ·)).length) :
    ReportsEnd sizes (s.reads sizes).1 := by
  have hleft : Left schedule s (schedule.interruptions.length + schedule.expanded.length) :=
    ⟨[], [], h, Nat.zero_add _⟩
  exact reportsEnd_of_left (left_read hok) hleft hlt

end Reading

/-- The expansion of all bytes is their rewriting. -/
theorem Schedule.rewriting_expanded {schedule : Schedule}
    (hok : (Expander.start.process schedule.bytes).error = none) :
    Rewriting schedule.bytes schedule.expanded := by
  obtain ⟨-, hrest, frames, hbytes, hrewrites⟩ :=
    Expander.rewrites_of_process Expander.isSound_start schedule.bytes hok
  exact ⟨frames, _, _, _, hbytes, hrest, hrewrites, rfl⟩

namespace InflateStream

/-- **The reads yield the rewriting of the client's bytes.** Let chunks arrive that can be taken in one
after the other without an error, with waits and errors of the stream below anywhere between them. Then
there is one rewriting of all bytes, and any reads yield a beginning of it and pass the interruptions
on in order. When a read with room for bytes gets none, the whole rewriting was yielded; and that
happens when there are more such reads than interruptions and bytes to be yielded. -/
theorem yielded_eq_rewriting (schedule : Schedule)
    (htakes : Expander.start.Takes [] schedule.chunks) :
    ∃ result, Rewriting schedule.bytes result ∧
      (∀ other, Rewriting schedule.bytes other → other = result) ∧
      ∀ sizes : List Nat,
        let answers := ((InflateStream.make schedule true).reads sizes).1
        yielded answers <+: result ∧ interruptions answers <+: schedule.interruptions ∧
          (ReportsEnd sizes answers →
            yielded answers = result ∧ interruptions answers = schedule.interruptions) ∧
          (schedule.interruptions.length + result.length < (sizes.filter (0 < ·)).length →
            ReportsEnd sizes answers) := by
  have hok : (Expander.start.process schedule.bytes).error = none := by
    have hall := @Expander.Takes.process .start [] schedule.chunks
    rw [Expander.process_nil, List.nil_append, Schedule.flatten_chunks] at hall
    exact hall rfl htakes
  have hrewriting := Schedule.rewriting_expanded hok
  have hstart := Reading.start schedule
  refine ⟨schedule.expanded, hrewriting, fun other hother => hother.unique hrewriting, ?_⟩
  intro sizes
  have hreads := hstart.reads hok sizes
  exact ⟨(List.prefix_append _ _).trans hreads.append_ready_prefix,
    ⟨_, hreads.interruptions_eq⟩, hstart.yielded_of_reportsEnd hok, hstart.reportsEnd_of_lt hok⟩

/-- A compressed greeting in two frames with a ping between them, cut inside a header and a payload,
with a wait and an error, and the beginning of another frame behind it. -/
def greeting : Schedule where
  arrivals :=
    [.chunk 0x41 [0x83, 0x00], .pending, .chunk 0x00 [0x00, 0x00, 0xF2, 0x48, 0xCD, 0x89, 0x80],
      .failed ⟨.timedOut, []⟩, .chunk 0x00 [0x00, 0x00, 0x00, 0x80, 0x84, 0x01, 0x02, 0x03, 0x04, 0xC8],
      .chunk 0xCB [0x04, 0x04, 0x82]]

theorem yielded_greeting :
    Expander.start.Takes [] greeting.chunks ∧
      ∃ result, Rewriting greeting.bytes result ∧
        yielded ((make greeting true).reads [1, 0, 40, 40, 40, 3, 40, 40]).1 = result := by
  have htakes : Expander.start.Takes [] greeting.chunks := by decide +kernel
  obtain ⟨result, hresult, -, hreads⟩ := yielded_eq_rewriting greeting htakes
  refine ⟨htakes, result, hresult, ((hreads _).2.2.1 ⟨40, by decide, ?_⟩).1⟩
  decide +kernel

end InflateStream

end Switchyard
