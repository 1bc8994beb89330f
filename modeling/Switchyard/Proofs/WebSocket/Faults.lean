import Switchyard.Proofs.WebSocket.InflateStream

/-!
# Where processing fails

A client's bytes may hold a frame that cannot be expanded (`Offends`). What comes before it is
rewritten as ever, but a read that takes in the bytes of that frame reports the error before it gives
what became ready by the same bytes. So up to the error the reads yield a beginning of the rewriting
of all frames before that one; what is missing is what the last bytes taken in brought, and the next
read gives it (`yielded_before_fault`).
-/

namespace Switchyard

/-! ### Frames that cannot be expanded -/

/-- Behind a walk, bytes begin with a frame that cannot be expanded. -/
inductive Offends (w : Walk) : Bytes → ExpandError → Prop where
  | frameTooLarge {bytes : Bytes} (h : FrameHeader.read bytes = .tooLarge) :
      Offends w bytes .frameTooLarge
  | compressedContinuation {f : WireFrame} {m : Gathering} (rest : Bytes)
      (hm : w.message = some m) (hopcode : f.opcode = Opcode.continuation)
      (hrsv1 : f.rsv1 = true) : Offends w (f.bytes ++ rest) .compressedContinuation
  | messageInsideMessage {f : WireFrame} {m : Gathering} (rest : Bytes)
      (hm : w.message = some m) (hcontrol : Opcode.isControl f.opcode = false)
      (hopcode : f.opcode ≠ Opcode.continuation) :
      Offends w (f.bytes ++ rest) .messageInsideMessage
  | messageTooLarge {f : WireFrame} {m : Gathering} (rest : Bytes) (hf : f.Joins w.message m)
      (h : maxMessage < m.payload.length) : Offends w (f.bytes ++ rest) .messageTooLarge
  | inflate {f : WireFrame} {m : Gathering} {e : InflateError} {i : Inflater} (rest : Bytes)
      (hf : f.Joins w.message m) (hfinal : f.final = true)
      (hi : w.inflater.inflate m.payload = (.error e, i)) : Offends w (f.bytes ++ rest) (.inflate e)

namespace Expander

variable {x x' : Expander} {f : WireFrame} {e : ExpandError}

theorem offends_of_compressed? (h : x.compressed? f.header = .error e) (rest : Bytes) :
    Offends x.walk (f.bytes ++ rest) e := by
  rw [compressed?, WireHeader.header_opcode, WireHeader.header_rsv1] at h
  split at h
  · cases h
  · next hcontrol =>
    split at h
    · next hsome =>
      obtain ⟨o, ho⟩ := Option.isSome_iff_exists.1 hsome
      have hm : x.walk.message = some o.gathering := by rw [walk, ho]; rfl
      split at h
      · next hopcode =>
        cases h
        exact .messageInsideMessage rest hm (Bool.eq_false_iff.2 hcontrol) hopcode
      · next hopcode =>
        split at h
        · next hrsv1 =>
          cases h
          exact .compressedContinuation rest hm (Decidable.not_not.1 hopcode) hrsv1
        · cases h
    · cases h

/-- A frame for which nothing can be put out. -/
theorem offends_of_frame (hx : x.IsSound) (h : x.frame f.header f.bytes = (.error e, x'))
    (rest : Bytes) : Offends x.walk (f.bytes ++ rest) e := by
  cases hc : x.compressed? f.header with
  | error e' =>
    rw [frame, hc] at h
    cases h
    exact offends_of_compressed? hc rest
  | ok b =>
    rcases cases_of_compressed? hc with hplain | ⟨m, hm⟩
    · rw [frame_of_isPlain hplain] at h
      cases h
    · by_cases hlength : m.payload.length ≤ maxMessage
      · rw [frame_of_joins hx hm hlength] at h
        split at h
        · next hfinal =>
          split at h
          · cases h
          · next e' i hi =>
            cases h
            exact .inflate rest hm hfinal hi
        · cases h
      · have hlarge := frame_of_joins_of_lt hx hm (Nat.not_le.1 hlength)
        rw [h] at hlarge
        cases hlarge
        exact .messageTooLarge rest hm (Nat.not_le.1 hlength)

/-- What is put out before an error is the rewriting of all frames before the one that is to blame.
-/
theorem rewrites_of_process_error (hx : x.IsSound) (raw : Bytes)
    (h : (x.process raw).error = some e) :
    ∃ frames bad w, raw = WireFrame.join frames ++ bad ∧
      Rewrites x.walk frames (x.process raw).output w ∧ Offends w bad e := by
  induction raw using bytes_induction generalizing x with
  | incomplete raw hincomplete hr =>
    rw [process_of_incomplete hincomplete hr] at h
    cases h
  | tooLarge raw hlarge =>
    rw [process_of_tooLarge hlarge] at h ⊢
    cases h
    exact ⟨[], raw, x.walk, rfl, .done _, .frameTooLarge hlarge⟩
  | frame f rest hf ih =>
    rw [process_frame x hf] at h ⊢
    rcases hframe : x.frame f.header f.bytes with ⟨e' | out, x'⟩
    · rw [hframe] at h
      cases h
      exact ⟨[], f.bytes ++ rest, x.walk, rfl, .done _, offends_of_frame hx hframe rest⟩
    · rw [hframe] at h
      obtain ⟨hx', hstep⟩ := step_of_frame hx hframe
      obtain ⟨frames, bad, w, hraw, hrewrites, hoffends⟩ := ih hx' h
      refine ⟨f :: frames, bad, w, ?_, hstep.append hrewrites, hoffends⟩
      rw [WireFrame.join_cons, List.append_assoc]
      exact congrArg (f.bytes ++ ·) hraw

end Expander

namespace InflateStream

/-! ### The read that reports the error -/

/-- The answer is an error. -/
def isFailure : Poll Bytes → Bool
  | .failed _ => true
  | _ => false

/-- A read reports an error that the stream below has not met. -/
def Faults (n : Nat) (s : InflateStream Schedule) : Prop :=
  isFailure (s.read n).1 = true ∧ (s.read n).2.inner.interruptions = s.inner.interruptions

/-- No read reports such an error. -/
def Unfaulted : List Nat → InflateStream Schedule → Prop
  | [], _ => True
  | n :: ns, s => ¬ s.Faults n ∧ Unfaulted ns (s.read n).2

instance (n : Nat) (s : InflateStream Schedule) : Decidable (s.Faults n) :=
  inferInstanceAs (Decidable (_ ∧ _))

instance Unfaulted.decidable : (sizes : List Nat) → (s : InflateStream Schedule) →
    Decidable (s.Unfaulted sizes)
  | [], _ => inferInstanceAs (Decidable True)
  | n :: ns, s =>
    have := Unfaulted.decidable ns (s.read n).2
    inferInstanceAs (Decidable (_ ∧ _))

/-- How a read reports the error `e` after `out` was yielded: the bytes that were taken before expand
to `out`, and those that it took, one chunk, bring the error. What they bring besides is ready. -/
structure Fault (schedule : Schedule) (e : ExpandError) (out : Bytes) (a : Poll Bytes)
    (s : InflateStream Schedule) : Prop where
  answer_eq : a = .failed (streamError e)
  expander_isSome : s.expander.isSome = true
  cut : ∃ taken chunk, taken ++ chunk ++ s.inner.bytes = schedule.bytes ∧
    chunk.length ≤ chunkSize ∧
    (Expander.start.process taken).error = none ∧
    (Expander.start.process taken).output = out ∧
    (Expander.start.process (taken ++ chunk)).error = some e ∧
    (Expander.start.process (taken ++ chunk)).output = out ++ s.ready

end InflateStream

namespace Reading

open InflateStream

variable {schedule : Schedule} {s s' : InflateStream Schedule} {out : Bytes}
  {interrupted : List (Poll Bytes)} {e : ExpandError}

/-- Before the end, what was yielded is the beginning of what is put out for all bytes. -/
theorem append_ready_prefix_output (h : Reading schedule s out interrupted)
    (hended : s.ended = false) :
    out ++ s.ready <+: (Expander.start.process schedule.bytes).output := by
  obtain ⟨taken, htaken, hprocess⟩ := h.taken hended
  have happend := Expander.process_append .start taken s.inner.bytes (by rw [hprocess])
  rw [hprocess, htaken] at happend
  rw [happend]
  exact List.prefix_append _ _

/-- One read from bytes that meet an error: it goes on as ever, or it reports that error. -/
theorem readExpanded_or_fault (hfault : (Expander.start.process schedule.bytes).error = some e)
    (h : Reading schedule s out interrupted) (hended : s.ended = false) {n : Nat} {x : Expander}
    (hx : s.expander = some x) {a : Poll Bytes} (hr : s.readExpanded n x = (a, s')) :
    (Reading schedule s' (out ++ bytesOf a) (interrupted ++ interruptions [a]) ∧
        s'.ended = false ∧ (0 < n → a ≠ .ready [])) ∨
      (s'.inner.interruptions = s.inner.interruptions ∧ Fault schedule e out a s') := by
  -- The rounds of a read, as without an error; only the end of the stream cannot be met.
  fun_induction InflateStream.readExpanded n x s with
  | case1 x s hready =>
    obtain ⟨rfl, rfl⟩ := Prod.mk.inj hr
    refine .inl ⟨h.give n, hended, ?_⟩
    intro hn hnone
    have htake : s.ready.take n = [] := Poll.ready.inj hnone
    rw [List.take_eq_nil_iff] at htake
    exact hready (htake.resolve_left (Nat.ne_of_gt hn))
  | case2 x s hready hended' => exact absurd (hended.symm.trans hended') (by simp)
  | case3 x s hready hended' inner hi =>
    cases hr
    rw [show bytesOf .pending = [] from rfl, List.append_nil]
    exact .inl ⟨h.interrupt (by simp) hi, hended, by simp⟩
  | case4 x s hready hended' err inner hi =>
    cases hr
    rw [show bytesOf (.failed err) = [] from rfl, List.append_nil]
    exact .inl ⟨h.interrupt (by simp) hi, hended, by simp⟩
  | case5 x s hready hended' inner hi =>
    obtain ⟨harrivals, -⟩ := Schedule.arrivals_of_read (by decide) hi
    obtain ⟨taken, htaken, hprocess⟩ := h.taken hended
    have hnil : s.inner.bytes = [] := by rw [Schedule.bytes, harrivals]; rfl
    rw [hnil, List.append_nil] at htaken
    rw [← htaken, hprocess] at hfault
    cases hfault
  | case6 x s hready hended' b rest inner hi err t ht =>
    cases hr
    obtain ⟨taken, htaken, hbefore, hprocess⟩ := h.process_taken hended hx hi
    obtain ⟨herror, rfl⟩ := Prod.mk.inj ht
    have hempty : s.ready = [] := Decidable.not_not.1 hready
    have hmet : (Expander.start.process (taken ++ (b :: rest))).error = some err := by
      rw [hprocess]
      exact herror
    have hall := Expander.process_append_of_error .start _ inner.bytes hmet
    rw [htaken] at hall
    rw [hall] at hfault
    obtain rfl : err = e := Option.some.inj (hmet.symm.trans hfault)
    refine .inr ⟨(Schedule.bytes_of_read hi).2.symm, rfl, rfl, taken, b :: rest, htaken,
      Schedule.length_read_le hi, by rw [hbefore], by rw [hbefore, hempty, List.append_nil],
      hmet, ?_⟩
    rw [hprocess, hempty, List.append_nil]
    simp [Expansion.behind]
  | case7 x s hready hended' b rest inner hi t ht ih =>
    obtain ⟨herror, rfl⟩ := Prod.mk.inj ht
    have hreading := h.absorbed hended hx hi herror
    rcases ih hreading hended rfl hr with hgo | ⟨hinner, hfaults⟩
    · exact .inl hgo
    · exact .inr ⟨hinner.trans (Schedule.bytes_of_read hi).2.symm, hfaults⟩

theorem read_or_fault (hfault : (Expander.start.process schedule.bytes).error = some e)
    (h : Reading schedule s out interrupted) (hended : s.ended = false) (n : Nat) :
    (¬ s.Faults n ∧ Reading schedule (s.read n).2 (out ++ bytesOf (s.read n).1)
        (interrupted ++ interruptions [(s.read n).1]) ∧
        (s.read n).2.ended = false ∧ (0 < n → (s.read n).1 ≠ .ready [])) ∨
      (s.Faults n ∧ Fault schedule e out (s.read n).1 (s.read n).2) := by
  obtain ⟨x, hx⟩ := Option.isSome_iff_exists.1 h.expander_isSome
  have hr : s.read n = s.readExpanded n x := by rw [InflateStream.read, hx]
  unfold Faults
  rw [hr]
  generalize hread : s.readExpanded n x = answered
  obtain ⟨a, s'⟩ := answered
  dsimp only
  rcases h.readExpanded_or_fault hfault hended hx hread with ⟨hreading, hrest⟩ | ⟨hinner, hfaults⟩
  · refine .inl ⟨?_, hreading, hrest⟩
    rintro ⟨hfailure, hinner⟩
    -- The stream below would have lost the error that it met.
    have hlost := hreading.interruptions_eq
    rw [hinner, ← h.interruptions_eq, List.append_assoc] at hlost
    have hlength := congrArg List.length (List.append_cancel_left hlost)
    cases a with
    | ready bs => cases hfailure
    | pending => cases hfailure
    | failed err => simp [interruptions, isInterruption] at hlength
  · refine .inr ⟨⟨?_, hinner⟩, hfaults⟩
    rw [hfaults.answer_eq]
    rfl

/-- As long as no read reports the error, reads go on as ever; each one with room for bytes gets
some, or an interruption. -/
theorem reads_unfaulted (hfault : (Expander.start.process schedule.bytes).error = some e)
    (h : Reading schedule s out interrupted) (hended : s.ended = false) {sizes : List Nat}
    (hsizes : s.Unfaulted sizes) :
    Reading schedule (s.reads sizes).2 (out ++ yielded (s.reads sizes).1)
        (interrupted ++ interruptions (s.reads sizes).1) ∧
      (s.reads sizes).2.ended = false ∧
      (sizes.filter (0 < ·)).length ≤
        (yielded (s.reads sizes).1).length + (interruptions (s.reads sizes).1).length := by
  induction sizes generalizing s out interrupted with
  | nil => exact ⟨by simpa [InflateStream.reads, yielded, interruptions] using h, hended, by simp⟩
  | cons n ns ih =>
    obtain ⟨hn, hns⟩ := hsizes
    rcases h.read_or_fault hfault hended n with ⟨-, hread, hended', hgot⟩ | ⟨hfaults, -⟩
    · obtain ⟨hreads, hlast, hlength⟩ := ih hread hended' hns
      rw [reads_cons, yielded_cons, interruptions_cons, ← List.append_assoc, ← List.append_assoc]
      refine ⟨hreads, hlast, ?_⟩
      rw [List.length_append, List.length_append]
      by_cases hpos : 0 < n
      · have hone := one_le_of_ne_ready_nil (hgot hpos)
        rw [List.filter_cons_of_pos (by simpa using hpos), List.length_cons]
        omega
      · rw [List.filter_cons_of_neg (by simpa using hpos)]
        omega
    · exact absurd hfaults hn

end Reading

namespace InflateStream

/-- When the error is reported, what was yielded lacks what the same bytes brought before the frame
that is to blame; this is ready, and the next read gives it. -/
theorem Fault.missing {schedule : Schedule} {e : ExpandError} {out : Bytes} {a : Poll Bytes}
    {s : InflateStream Schedule} (h : Fault schedule e out a s) :
    out ++ s.ready = (Expander.start.process schedule.bytes).output ∧
      ∀ n, s.ready ≠ [] → s.ready.length ≤ n → (s.read n).1 = .ready s.ready := by
  obtain ⟨taken, chunk, hbytes, -, -, -, herror, houtput⟩ := h.cut
  constructor
  · have hall := Expander.process_append_of_error .start _ s.inner.bytes herror
    rw [hbytes] at hall
    rw [hall, ← houtput]
  · intro n hready hn
    obtain ⟨x, hx⟩ := Option.isSome_iff_exists.1 h.expander_isSome
    have hgive : s.read n = s.give n := by
      rw [read, hx]
      unfold readExpanded
      exact if_pos hready
    rw [hgive, give, List.take_of_length_le hn]

/-- **A bad frame does not cost the frames before it, except those that arrive with it.** Where a client's
bytes meet an error, they are frames, rewritten to `before`, and behind them one that cannot be
expanded. Until a read reports the error, reads yield a beginning of `before`; what is missing then
comes from bytes that this one read has taken, and the next read gives it. -/
theorem yielded_before_fault (schedule : Schedule) {e : ExpandError}
    (he : (Expander.start.process schedule.bytes).error = some e) :
    ∃ frames before bad w, schedule.bytes = WireFrame.join frames ++ bad ∧
      Rewrites .start frames before w ∧ Offends w bad e ∧
      ∀ sizes, (make schedule true).Unfaulted sizes →
        let answers := ((make schedule true).reads sizes).1
        let s := ((make schedule true).reads sizes).2
        yielded answers <+: before ∧ interruptions answers <+: schedule.interruptions ∧
          (sizes.filter (0 < ·)).length ≤ before.length + schedule.interruptions.length ∧
          ∀ n, s.Faults n →
            Fault schedule e (yielded answers) (s.read n).1 (s.read n).2 ∧
              yielded answers ++ (s.read n).2.ready = before ∧
              ∀ m, (s.read n).2.ready ≠ [] → (s.read n).2.ready.length ≤ m →
                ((s.read n).2.read m).1 = .ready (s.read n).2.ready := by
  obtain ⟨frames, bad, w, hbytes, hrewrites, hoffends⟩ :=
    Expander.rewrites_of_process_error Expander.isSound_start schedule.bytes he
  refine ⟨frames, _, bad, w, hbytes, hrewrites, hoffends, ?_⟩
  intro sizes hsizes answers s
  obtain ⟨hreading, hended, hcount⟩ :=
    (Reading.start schedule).reads_unfaulted he rfl hsizes
  rw [List.nil_append, List.nil_append] at hreading
  have hbeginning := (List.prefix_append _ _).trans (hreading.append_ready_prefix_output hended)
  have hinterruptions : interruptions answers <+: schedule.interruptions :=
    ⟨_, hreading.interruptions_eq⟩
  refine ⟨hbeginning, hinterruptions, ?_, ?_⟩
  · have hle := hbeginning.length_le
    have hle' := hinterruptions.length_le
    exact Nat.le_trans hcount (Nat.add_le_add hle hle')
  · intro n hn
    rcases hreading.read_or_fault he hended n with ⟨hnot, -⟩ | ⟨-, hfault⟩
    · exact absurd hn hnot
    · exact ⟨hfault, hfault.missing⟩

/-- A ping, and in the same chunk the beginning of a compressed message with another message inside. -/
def pingWithFault : Schedule where
  arrivals := [.chunk 0x89 [0x80, 0x00, 0x00, 0x00, 0x00, 0x42, 0x80, 0x00, 0x00, 0x00, 0x00,
    0x82, 0x80, 0x00, 0x00, 0x00, 0x00]]

/-- The same bytes, with the ping in a chunk of its own. -/
def pingBeforeFault : Schedule where
  arrivals := [.chunk 0x89 [0x80, 0x00, 0x00, 0x00, 0x00],
    .chunk 0x42 [0x80, 0x00, 0x00, 0x00, 0x00, 0x82, 0x80, 0x00, 0x00, 0x00, 0x00]]

theorem yielded_before_fault_of_ping :
    (Expander.start.process pingWithFault.bytes).error = some .messageInsideMessage ∧
      (make pingWithFault true).Faults 64 ∧
      (((make pingWithFault true).read 64).2.read 64).1 = .ready [0x89, 0x80, 0x00, 0x00, 0x00, 0x00] := by
  have herror : (Expander.start.process pingWithFault.bytes).error = some .messageInsideMessage := by
    decide +kernel
  have hfaults : (make pingWithFault true).Faults 64 := by decide +kernel
  obtain ⟨frames, before, bad, w, -, -, -, hreads⟩ := yielded_before_fault pingWithFault herror
  obtain ⟨-, -, -, hfault⟩ := hreads [] trivial
  obtain ⟨-, -, hnext⟩ := hfault 64 hfaults
  refine ⟨herror, hfaults, (hnext 64 (by decide +kernel) (by decide +kernel)).trans ?_⟩
  decide +kernel

/-- Whether the ping is yielded before the error depends on where the bytes are cut. -/
theorem fault_outruns_ping :
    pingWithFault.bytes = pingBeforeFault.bytes ∧
      (Expander.start.process pingWithFault.bytes).output = [0x89, 0x80, 0x00, 0x00, 0x00, 0x00] ∧
      ((make pingWithFault true).reads [64]).1 =
        [.failed (streamError .messageInsideMessage)] ∧
      ((make pingBeforeFault true).reads [64, 64]).1 =
        [.ready [0x89, 0x80, 0x00, 0x00, 0x00, 0x00],
          .failed (streamError .messageInsideMessage)] := by
  decide +kernel

end InflateStream

end Switchyard
