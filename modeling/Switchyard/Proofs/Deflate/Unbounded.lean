import Switchyard.Proofs.Deflate.Standing

/-!
# Inflating without limits

Enlarging a buffer keeps to the stream (`Progress.Stands.advance`) and comes to an end
(`Progress.Stands.remaining_lt`), so the stream tells what inflating a payload comes to, whatever buffer
one begins with (`inflate_unbounded`). A message that fills its last page may lack bytes: they wait, and
as all input is read, nobody asks for them until the next message (`fullPage_withheld`).
-/

namespace Switchyard.Inflater

open Deflate

variable {i : Inflater} {f : Flow}

/-! ### Enlarging the buffer -/

/-- Where a message leaves an inflater: bytes are given and not delivered only if they wait behind a page
that is full, and if none wait, the stream tells all that the inflater has kept. -/
structure Resumes (i : Inflater) (f : Flow) : Prop where
  stands : i.Stands [] f
  running : i.hasEnded = false
  undelivered_eq : i.undelivered = []

theorem resumes_start : start.Resumes .start where
  stands := stands_start
  running := rfl
  undelivered_eq := rfl

theorem Resumes.given_eq_nil_iff (h : i.Resumes f) : f.given = [] ↔ i.decoder.waiting = none := by
  refine ⟨fun hgiven => ?_, h.stands.given_eq_nil h.undelivered_eq⟩
  exact Decidable.byContradiction fun hsome => h.stands.given_ne_nil hsome hgiven

theorem Resumes.full (h : i.Resumes f) (hsome : i.decoder.waiting ≠ none) :
    i.decoder.window.pageRoom = pageSize :=
  Decoder.Stands.full h.stands (Option.isSome_iff_ne_none.2 hsome)

theorem Resumes.eq_ofFlow (h : i.Resumes f) (hnone : i.decoder.waiting = none) : i = ofFlow f :=
  h.stands.eq_ofFlow (h.given_eq_nil_iff.2 hnone) h.running

/-- What inflating a payload comes to, if `f` is the stream with that payload and what is put back
behind it read to the end. No other answer is possible; in particular the decoder always gets on. -/
inductive Outcome (f : Flow) : Except InflateError Bytes × Inflater → Prop where
  /-- The bytes of the stream, but for those that wait for a new page. -/
  | given {plain : Bytes} {j : Inflater} {g : Flow} (hf : f = g.after plain) (hj : j.Resumes g) :
      Outcome f (.ok plain, j)
  | corrupt {j : Inflater} (hf : f.phase = .failed) (hj : j.hasFailed = true) :
      Outcome f (.error .corrupt, j)
  | tooLarge {j : Inflater} {g : Flow} (hf : maxMessage ≤ f.given.length) (hj : j.Stands [] g) :
      Outcome f (.error .tooLarge, j)

/-- A message is whole if nothing waits behind it, and then the state that it leaves is that of the
stream. -/
theorem Outcome.of_ok {plain : Bytes} {j : Inflater} (h : Outcome f (.ok plain, j)) :
    (plain = f.given ↔ j.decoder.waiting = none) ∧ (j.decoder.waiting = none → j = ofFlow f) ∧
      (j.decoder.waiting ≠ none → j.decoder.window.pageRoom = pageSize) := by
  cases h with
  | @given _ _ g hf hj =>
    subst hf
    refine ⟨?_, hj.eq_ofFlow, hj.full⟩
    rw [← hj.given_eq_nil_iff, Flow.after, List.self_eq_append_right]

/-- The parts of the message so far and what is given behind them make up the stream. -/
structure Progress.Stands (p : Progress) (f : Flow) : Prop where
  exists_stands : ∃ g, p.inflater.Stands p.parts.reverse.flatten g ∧ g.read p.rest = f
  sound : p.IsSound
  running : p.inflater.hasEnded = false

namespace Progress

variable {p : Progress} {capacity : Nat}

theorem maxMessage_le_of_none (h : p.room? = none) : maxMessage ≤ p.size := by
  unfold room? at h
  split at h
  · cases h
  · split at h
    · assumption
    · cases h

theorem Stands.advance (h : p.Stands f) (halive : p.inflater.hasFailed = false)
    (hroom : p.room? = some capacity) : (p.advance capacity).Stands f := by
  obtain ⟨g, hg, hread⟩ := h.exists_stands
  obtain ⟨k, hk, hread'⟩ := stands_fill hg halive p.rest (capacity - p.size)
  refine ⟨⟨k, ?_, hread'.trans hread⟩, h.sound.advance hroom, p.hasEnded_advance capacity⟩
  have hparts : (p.advance capacity).parts.reverse.flatten =
      p.parts.reverse.flatten ++ (p.inflater.fill p.rest (capacity - p.size)).delivered := by
    simp only [Progress.advance, List.reverse_cons, List.flatten_append, List.flatten_cons,
      List.flatten_nil, List.append_nil]
  rw [hparts, inflater_advance]
  split
  · next hended => exact hk.restart hended
  · exact hk

/-- Each filling of the buffer leaves less to do, until there is nothing to do. -/
theorem Stands.remaining_lt (h : p.Stands f) (halive : p.inflater.hasFailed = false)
    (hroom : p.room? = some capacity) (hlt : p.size < capacity)
    (hdone : ¬ ((p.advance capacity).rest = [] ∧ (p.advance capacity).size < capacity)) :
    (p.advance capacity).remaining < p.remaining := by
  obtain ⟨g, hg, -⟩ := h.exists_stands
  refine remaining_advance_lt h.sound hroom hlt ?_
  by_cases hmore : p.rest ≠ [] ∨ p.inflater.undelivered ≠ []
  · exact fill_progress (Nat.sub_pos_of_lt hlt) hmore h.running halive hg.idle hg.asks
  · -- Nothing is left to read, so the buffer is full only if bytes were delivered.
    left
    intro hnil
    rw [not_or, Decidable.not_not] at hmore
    refine hdone ⟨?_, ?_⟩
    · have hrest := length_rest_fill_le p.inflater p.rest (capacity - p.size)
      have hzero : p.rest.length = 0 := by rw [hmore.1, List.length_nil]
      exact List.length_eq_zero_iff.1 (Nat.le_zero.1 (hzero ▸ hrest))
    · show p.size + (p.inflater.fill p.rest (capacity - p.size)).delivered.length < capacity
      rw [hnil]
      exact hlt

/-- Whatever the capacity of the buffer, the outcome is told by the stream without limits. -/
theorem Stands.finish (h : p.Stands f) (halive : p.inflater.hasFailed = false)
    (hsize : p.size ≤ p.capacity) : Outcome f p.finish := by
  -- Each filling of the buffer takes the inflater on, and leaves less to do.
  fun_induction Progress.finish p with
  | case1 p hnone =>
    obtain ⟨g, hg, rfl⟩ := h.exists_stands
    obtain ⟨k, -, hk⟩ := hg.behind
    refine .tooLarge ?_ hk
    have hparts := ((List.prefix_append _ _).trans hg.given_prefix).length_le
    have hread := (Flow.given_read_prefix g p.rest).length_le
    rw [← h.sound.size_eq] at hparts
    have hmax := maxMessage_le_of_none hnone
    omega
  | case2 p capacity hroom next hfailed =>
    obtain ⟨g, hg, hread⟩ := (h.advance halive hroom).exists_stands
    have hphase := hg.phase_eq_failed hfailed
    rw [Flow.read_failed hphase] at hread
    exact .corrupt (hread ▸ hphase) hfailed
  | case3 p capacity hroom next hfailed hdone =>
    obtain ⟨hlt, -⟩ := room_of_some hsize hroom
    have hadvance := h.advance halive hroom
    obtain ⟨g, hg, hread⟩ := hadvance.exists_stands
    have hundelivered := p.undelivered_advance hlt hdone.2
    rw [hdone.1, Flow.read_nil] at hread
    obtain ⟨k, hk, hstands⟩ := hg.behind
    exact .given (hread ▸ hk) ⟨hstands, hadvance.running, hundelivered⟩
  | case4 p capacity hroom next hfailed hdone hless ih =>
    obtain ⟨hlt, -⟩ := room_of_some hsize hroom
    exact ih (h.advance halive hroom) (Bool.eq_false_iff.2 hfailed) (p.size_advance_le hlt)
  | case5 p capacity hroom next hfailed hdone hless =>
    obtain ⟨hlt, -⟩ := room_of_some hsize hroom
    exact absurd (h.remaining_lt halive hroom hlt hdone) hless

end Progress

/-! ### Messages one after the other -/

/-- Inflates a payload with a first buffer of some capacity. -/
def inflateIn (capacity : Nat) (i : Inflater) (payload : Bytes) :
    Except InflateError Bytes × Inflater :=
  Progress.finish ⟨i, payload ++ tail, [], 0, capacity⟩

theorem inflate_eq_inflateIn (i : Inflater) (payload : Bytes) :
    i.inflate payload = inflateIn (firstCapacity payload.length) i payload := rfl

theorem firstCapacity_le_limit (n : Nat) : firstCapacity n ≤ capacityLimit :=
  Nat.le_trans (firstCapacity_le n) (by decide)

theorem Stands.outcome (h : i.Stands [] f) (halive : i.hasFailed = false)
    (hended : i.hasEnded = false) {capacity : Nat} (hcapacity : capacity ≤ capacityLimit)
    (payload : Bytes) : Outcome (f.read (payload ++ tail)) (inflateIn capacity i payload) := by
  have hfirst : Progress.Stands ⟨i, payload ++ tail, [], 0, capacity⟩ (f.read (payload ++ tail)) :=
    ⟨⟨f, h, rfl⟩, ⟨rfl, hcapacity⟩, hended⟩
  exact hfirst.finish halive (Nat.zero_le _)

/-- A stream that was not well formed stays so. -/
theorem hasFailed_fill (h : i.hasFailed = true) (input : Bytes) (room : Nat) :
    (i.fill input room).inflater.hasFailed = true := by
  have hphase : (i.decoder.run input).decoder.phase = .failed :=
    Decoder.phase_run_failed (beq_iff_eq.1 h) input
  rw [fill, if_neg fun hnot => hnot.2 h, decode]
  dsimp only
  rw [hphase, if_pos (.inr (.inr (.inr rfl))), hasFailed, hphase]
  rfl

theorem Progress.finish_of_room {p : Progress} {c : Nat} (hroom : p.room? = some c) :
    p.finish =
      if (p.advance c).inflater.hasFailed then (.error .corrupt, (p.advance c).inflater)
      else if (p.advance c).rest = [] ∧ (p.advance c).size < (p.advance c).capacity then
        (.ok (p.advance c).parts.reverse.flatten, (p.advance c).inflater)
      else if (p.advance c).remaining < p.remaining then (p.advance c).finish
      else (.error .stalled, (p.advance c).inflater) := by
  rw [finish]
  split
  · next hnone =>
    rw [hroom] at hnone
    cases hnone
  · next c' hc =>
    obtain rfl := Option.some.inj (hroom.symm.trans hc)
    rfl

theorem inflateIn_of_hasFailed (h : i.hasFailed = true) (capacity : Nat) (payload : Bytes) :
    ∃ j, inflateIn capacity i payload = (.error .corrupt, j) ∧ j.hasFailed = true := by
  have hmax : ¬ maxMessage ≤ 0 := by decide
  obtain ⟨c, hc⟩ : ∃ c, Progress.room? ⟨i, payload ++ tail, [], 0, capacity⟩ = some c := by
    unfold Progress.room?
    split
    · exact ⟨_, rfl⟩
    · exact ⟨_, if_neg (t := none) hmax⟩
  have hfill := hasFailed_fill h (payload ++ tail) (c - 0)
  have hrunning : ¬ (i.fill (payload ++ tail) (c - 0)).inflater.hasEnded = true := by
    rw [hasEnded, beq_iff_eq.1 hfill]
    exact Bool.false_ne_true
  have hnext : (Progress.advance ⟨i, payload ++ tail, [], 0, capacity⟩ c).inflater.hasFailed = true := by
    rw [Progress.inflater_advance, if_neg hrunning]
    exact hfill
  exact ⟨_, (Progress.finish_of_room hc).trans (if_pos hnext), hnext⟩

theorem Reached.stands (h : Reached i) : i.hasFailed = true ∨ ∃ f, i.Stands [] f := by
  induction h with
  | start => exact .inr ⟨_, stands_start⟩
  | @inflate i hi payload ih =>
    rw [inflate_eq_inflateIn]
    cases halive : i.hasFailed with
    | true =>
      obtain ⟨j, hj, hfailed⟩ := inflateIn_of_hasFailed halive (firstCapacity payload.length) payload
      rw [hj]
      exact .inl hfailed
    | false =>
      obtain ⟨f, hf⟩ := ih.resolve_left (by rw [halive]; exact Bool.false_ne_true)
      have houtcome := hf.outcome halive hi.hasEnded (firstCapacity_le_limit payload.length) payload
      generalize inflateIn (firstCapacity payload.length) i payload = r at houtcome
      cases houtcome with
      | given hf hj => exact .inr ⟨_, hj.stands⟩
      | corrupt hf hj => exact .inl hj
      | tooLarge hf hj => exact .inr ⟨_, hj⟩

/-- Messages that are inflated one after the other, each from its payload. -/
inductive Inflates : Inflater → List (Bytes × Bytes) → Inflater → Prop where
  | done (i : Inflater) : Inflates i [] i
  | message {i i' j : Inflater} {payload plain : Bytes} {messages : List (Bytes × Bytes)}
      (hi : i.inflate payload = (.ok plain, i')) (h : Inflates i' messages j) :
      Inflates i ((payload, plain) :: messages) j

theorem Inflates.resumes {i j : Inflater} {messages : List (Bytes × Bytes)}
    (h : Inflates i messages j) {f : Flow} (hi : i.Resumes f) :
    ∃ g, f.read (messages.flatMap fun m => m.1 ++ tail) = g.after (messages.flatMap Prod.snd) ∧
      j.Resumes g := by
  induction h generalizing f with
  | done i => exact ⟨f, rfl, hi⟩
  | @message i i' j payload plain messages hinflate _ ih =>
    have halive : i.hasFailed = false := by
      refine Bool.eq_false_iff.2 fun hfailed => ?_
      obtain ⟨k, hk, -⟩ := inflateIn_of_hasFailed hfailed (firstCapacity payload.length) payload
      rw [← inflate_eq_inflateIn, hinflate] at hk
      cases hk
    have houtcome := hi.stands.outcome halive hi.running (firstCapacity_le_limit payload.length) payload
    rw [← inflate_eq_inflateIn, hinflate] at houtcome
    cases houtcome with
    | given hf hj =>
      obtain ⟨g, hg, hlast⟩ := ih hj
      refine ⟨g, ?_, hlast⟩
      rw [List.flatMap_cons, Flow.read_append, hf, Flow.after_read, hg, List.flatMap_cons]
      simp only [Flow.after, List.append_assoc]

/-! ### A page that is full at the end of a message -/

/-- What a single run of the decoder gives is the message, if it does not fill the buffer. -/
theorem inflate_of_run {d : Decoder} {payload : Bytes} {run : Decoder.Run}
    (hrun : d.run (payload ++ tail) = run) (hrest : run.rest = [])
    (halive : run.decoder.phase.isFinal = false)
    (hroom : run.written.length < firstCapacity payload.length) :
    inflate ⟨d, []⟩ payload = (.ok run.written, ⟨run.decoder, []⟩) := by
  let c := firstCapacity payload.length
  let p : Progress := ⟨⟨d, []⟩, payload ++ tail, [], 0, c⟩
  have hc : p.room? = some c := if_pos (Nat.zero_lt_of_lt hroom)
  have hfill : fill ⟨d, []⟩ (payload ++ tail) (c - 0) =
      ⟨⟨run.decoder, []⟩, run.written, []⟩ := by
    rw [fill, if_neg fun hmore => hmore.1 rfl, decode]
    dsimp only
    rw [hrun, if_pos (.inl hrest), hrest, Nat.sub_zero, List.take_of_length_le (Nat.le_of_lt hroom),
      List.drop_of_length_le (Nat.le_of_lt hroom)]
  have hstate : hasEnded ⟨run.decoder, []⟩ = false ∧ hasFailed ⟨run.decoder, []⟩ = false := by
    rw [hasEnded, hasFailed]
    dsimp only
    cases hphase : run.decoder.phase with
    | ended =>
      rw [hphase] at halive
      cases halive
    | failed =>
      rw [hphase] at halive
      cases halive
    | _ => exact ⟨rfl, rfl⟩
  have hnext : p.advance c = ⟨⟨run.decoder, []⟩, [], [run.written], run.written.length, c⟩ := by
    unfold Progress.advance
    dsimp only [p]
    rw [hfill, hstate.1, Nat.zero_add]
    rfl
  refine (Progress.finish_of_room hc).trans ?_
  rw [hnext, hstate.2, if_neg Bool.false_ne_true, if_pos ⟨rfl, hroom⟩]
  simp only [List.reverse_singleton, List.flatten_singleton]

/-- Zeros in a stored block, so many that a page has room for 36 bytes more, and then a block with fixed
codes: a copy of 35 of the zeros and the literals 0x4F and 0xFF. The code of the last one ends with the
bytes that are put back. -/
def fullPage : Bytes :=
  [0x00, 0xDC, 0x7F, 0x23, 0x80] ++ (zeros 32732 ++ [0x22, 0xE2])

theorem readBytes_header (w : Window) (room : Nat) (written rest : Bytes) :
    Page.readBytes ⟨.start, none, w, room, written⟩ [] ([0x00, 0xDC, 0x7F, 0x23, 0x80] ++ rest) =
      Page.readBytes ⟨.stored false 32732, none, w, room, written⟩ [] rest := rfl

theorem run_start (input : Bytes) :
    Decoder.start.run input =
      (fun r : Page × List Bool × Bytes =>
        ⟨⟨r.1.phase, r.2.1, r.1.waiting, r.1.window⟩, r.1.written.reverse, r.2.2⟩)
        (Page.readBytes ⟨.start, none, .empty, pageSize, []⟩ [] input) := rfl

theorem run_fullPage :
    (Decoder.start.run (fullPage ++ tail)).decoder.waiting = some (.literal 0xFF) ∧
      (Decoder.start.run (fullPage ++ tail)).decoder.bits = [] ∧
      (Decoder.start.run (fullPage ++ tail)).rest = [] := by
  let p : Page := ⟨.afterBlock false, none, (zeros 32732).foldl .push .empty, pageSize - 32732,
    (zeros 32732).reverse ++ []⟩
  have hend : (p.readBytes [] ([0x22, 0xE2] ++ tail)).1.waiting = some (.literal 0xFF) ∧
      (p.readBytes [] ([0x22, 0xE2] ++ tail)).2 = ([], []) := by
    decide +kernel
  let stored : Page := ⟨.stored false 32732, none, .empty, pageSize, []⟩
  have hlength := length_zeros 32732
  have hphase : stored.phase = .stored false (zeros 32732).length := by rw [hlength]
  have hne : zeros 32732 ≠ [] := List.ne_nil_of_length_pos (by rw [hlength]; decide)
  have hroom : (zeros 32732).length ≤ stored.room := by
    rw [hlength]
    decide
  have hread : Page.readBytes ⟨.start, none, .empty, pageSize, []⟩ [] (fullPage ++ tail) =
      p.readBytes [] ([0x22, 0xE2] ++ tail) := by
    rw [fullPage, List.append_assoc, List.append_assoc, readBytes_header]
    refine (Page.readBytes_block hphase rfl hne hroom _).trans ?_
    rw [hlength]
  rw [run_start, hread]
  dsimp only
  rw [hend.2]
  exact ⟨hend.1, rfl, rfl⟩

/-! ### Inflating payloads -/

/-- **Inflating keeps to the stream without limits.** Wherever an inflater is in its stream, what it makes
of a payload is told by that stream, but for bytes that wait behind a full page; with those the next
message begins. Only a stream that is not well formed and a message that is too long are errors, the
former for good. -/
theorem inflate_unbounded {i : Inflater} (hi : Reached i) (payload : Bytes) :
    (i.hasFailed = true → ∃ j, i.inflate payload = (.error .corrupt, j) ∧ j.hasFailed = true) ∧
    (i.hasFailed = false → ∃ f, i.Stands [] f) ∧
    (i.hasFailed = false → ∀ f, i.Stands [] f →
      Outcome (f.read (payload ++ tail)) (i.inflate payload) ∧
      (∀ capacity ≤ capacityLimit, Outcome (f.read (payload ++ tail)) (inflateIn capacity i payload)) ∧
      ∀ plain j, i.inflate payload = (.ok plain, j) →
        (plain = (f.read (payload ++ tail)).given ↔ j.decoder.waiting = none) ∧
        (j.decoder.waiting = none → j = ofFlow (f.read (payload ++ tail))) ∧
        (j.decoder.waiting ≠ none → j.decoder.window.pageRoom = pageSize)) ∧
    ∀ messages, Inflates .start messages i → ∃ f : Flow,
      Flow.start.read (messages.flatMap fun m => m.1 ++ tail) = f.after (messages.flatMap Prod.snd) ∧
      i.Resumes f := by
  refine ⟨fun hfailed => ?_, fun halive => ?_, fun halive f hf => ?_, fun messages h => ?_⟩
  · exact inflateIn_of_hasFailed hfailed (firstCapacity payload.length) payload
  · exact hi.stands.resolve_left (by rw [halive]; exact Bool.false_ne_true)
  · have hcapacity := firstCapacity_le_limit payload.length
    have houtcome := hf.outcome halive hi.hasEnded hcapacity payload
    refine ⟨houtcome, fun capacity hle => hf.outcome halive hi.hasEnded hle payload,
      fun plain j hinflate => ?_⟩
    rw [← inflate_eq_inflateIn, hinflate] at houtcome
    exact houtcome.of_ok
  · exact h.resumes resumes_start

theorem inflate_unbounded_of_hello :
    let payload : Bytes := [0xF2, 0x48, 0xCD, 0xC9, 0xC9, 0x07, 0x00]
    let second := (inflate .start payload).2
    let broken := (inflate .start [0x07]).2
    Reached second ∧ (inflate .start payload).1 = .ok "Hello".toUTF8.toList ∧
      (Flow.start.read (payload ++ tail)).given = "Hello".toUTF8.toList ∧
      (∃ f, Flow.start.read (payload ++ tail) = f.after "Hello".toUTF8.toList ∧ second.Resumes f) ∧
      ∃ j, broken.inflate payload = (.error .corrupt, j) ∧ j.hasFailed = true := by
  intro payload second broken
  have hsecond : Reached second := .inflate .start payload
  have hhello : (inflate .start payload).1 = .ok "Hello".toUTF8.toList := by decide +kernel
  have hinflate : inflate .start payload = (.ok "Hello".toUTF8.toList, second) := Prod.ext hhello rfl
  have hnone : second.decoder.waiting = none := by decide +kernel
  obtain ⟨-, -, hstart, -⟩ := inflate_unbounded .start payload
  obtain ⟨-, -, hwhole⟩ := hstart rfl .start stands_start
  obtain ⟨-, -, -, hmessages⟩ := inflate_unbounded hsecond payload
  obtain ⟨f, hf, hresumes⟩ := hmessages _ (.message hinflate (.done second))
  rw [List.flatMap_singleton, List.flatMap_singleton] at hf
  obtain ⟨hbroken, -⟩ := inflate_unbounded (.inflate .start [0x07]) payload
  exact ⟨hsecond, hhello, ((hwhole _ _ hinflate).1.2 hnone).symm, ⟨f, hf, hresumes⟩,
    hbroken (by decide +kernel)⟩

/-- The byte for which the page has no room is not in the message. -/
theorem fullPage_withheld :
    ∃ plain, (inflate .start fullPage).1 = .ok plain ∧ plain.length = 32768 ∧
      (Flow.start.read (fullPage ++ tail)).given = plain ++ [0xFF] := by
  obtain ⟨hwaiting, hbits, hrest⟩ := run_fullPage
  obtain ⟨-, hfull, -⟩ := Decoder.fills_run .start (fullPage ++ tail)
  have hlength := hfull (Option.isSome_iff_exists.2 ⟨_, hwaiting⟩)
  have hstart : Decoder.start.Stands [] .start := stands_start
  obtain ⟨g, hstands, hread⟩ := hstart.run (fullPage ++ tail)
  obtain ⟨last, codes, hphase⟩ := (hstands.fits _ hwaiting).elements
  have hroom : (Decoder.start.run (fullPage ++ tail)).written.length <
      firstCapacity fullPage.length := by
    rw [hlength, fullPage, List.length_append, List.length_append, length_zeros]
    decide
  have hinflate := inflate_of_run rfl hrest (by rw [hphase]; rfl) hroom
  refine ⟨_, congrArg Prod.fst hinflate, hlength, ?_⟩
  rw [hrest, Flow.read_nil] at hread
  have hgiven := hstands.given_eq_concat hwaiting hbits
  rw [hread, List.nil_append] at hgiven
  exact hgiven

end Switchyard.Inflater
