import Switchyard.Proofs.Deflate.Buffer
import Switchyard.Proofs.Deflate.Pages

/-!
# Inflating what was carried

An inflater that holds the history of a compressor inflates the compressor's payloads to its messages,
and holds the history that they leave behind (`inflate_of_carries`). `Progress.Owes` is what each
filling of the buffer preserves, and each filling gets on (`fill_progress`).
-/

namespace Switchyard.Inflater

open Deflate

/-! ### Filling a buffer -/

/-- The inflater owes bytes, if this is its input: those that found no room, and those of the
decoder. -/
def Owes (i : Inflater) (final input out : Bytes) : Prop :=
  ∃ later, out = i.undelivered ++ later ∧ i.decoder.Owes final input later

/-- What was delivered has found room, and it fills the buffer if not everything was delivered. -/
structure Filling.Within (f : Filling) (room : Nat) : Prop where
  length_le : f.delivered.length ≤ room
  full : f.inflater.undelivered ≠ [] → f.delivered.length = room

/-- What was delivered was owed. -/
def Filling.Owes (f : Filling) (final out : Bytes) : Prop :=
  ∃ later, out = f.delivered ++ later ∧ f.inflater.Owes final f.rest later

variable {d : Decoder} {i : Inflater} {final input out : Bytes} {room : Nat}

theorem length_take_of_drop_ne_nil {bs : Bytes} (h : bs.drop room ≠ []) :
    (bs.take room).length = room := by
  refine List.length_take_of_le (Nat.le_of_lt (Nat.not_le.1 fun hle => ?_))
  exact h (List.drop_eq_nil_of_le hle)

/-- Bytes of which those are delivered that find room. -/
theorem within_take (d : Decoder) (bs rest : Bytes) (room : Nat) :
    Filling.Within ⟨⟨d, bs.drop room⟩, bs.take room, rest⟩ room :=
  ⟨List.length_take_le _ _, length_take_of_drop_ne_nil⟩

theorem decode_within (d : Decoder) (input : Bytes) (room : Nat) :
    (decode d input room).Within room := by
  fun_induction decode d input room with
  | case1 d input room run => exact within_take _ _ _ room
  | case2 d input room run delivered undelivered left hstop hlt more ih =>
    have hdelivered : delivered.length ≤ room := List.length_take_le _ _
    have hle : more.delivered.length ≤ room - delivered.length := ih.length_le
    constructor
    · show (delivered ++ more.delivered).length ≤ room
      rw [List.length_append]
      omega
    · intro hne
      have hfull : more.delivered.length = room - delivered.length := ih.full hne
      show (delivered ++ more.delivered).length = room
      rw [List.length_append]
      omega
  | case3 d input room run => exact within_take _ _ _ room

theorem fill_within (i : Inflater) (input : Bytes) (room : Nat) :
    (i.fill input room).Within room := by
  unfold fill
  split
  · exact within_take _ _ _ room
  · exact decode_within _ input room

/-- One run, of which a part is delivered. -/
theorem owes_run (h : d.Owes final input out) :
    Filling.Owes ⟨⟨(d.run input).decoder, (d.run input).written.drop room⟩,
      (d.run input).written.take room, (d.run input).rest⟩ final out := by
  obtain ⟨later, rfl, hnext⟩ := h.run
  refine ⟨(d.run input).written.drop room ++ later, ?_, later, rfl, hnext⟩
  rw [← List.append_assoc, List.take_append_drop]

theorem decode_owes (d : Decoder) (input : Bytes) (room : Nat) (out : Bytes)
    (h : d.Owes final input out) : (decode d input room).Owes final out := by
  revert out
  fun_induction decode d input room with
  | case1 d input room run delivered undelivered left hstop => exact fun out h => owes_run h
  | case2 d input room run delivered undelivered left hstop hlt more ih =>
    intro out h
    simp only [not_or, ne_eq, Decidable.not_not] at hstop
    obtain ⟨-, -, hdelivered, -⟩ := hstop
    -- Everything was delivered, so another run goes on with what is owed after it.
    have hrun : Filling.Owes ⟨⟨run.decoder, undelivered⟩, delivered, run.rest⟩ final out :=
      owes_run h
    obtain ⟨later, rfl, later', rfl, hnext⟩ := hrun
    rw [hdelivered, List.nil_append]
    obtain ⟨last, rfl, hlast⟩ := ih later' hnext
    exact ⟨last, (List.append_assoc _ _ _).symm, hlast⟩
  | case3 d input room run delivered undelivered left hstop hlt => exact fun out h => owes_run h

theorem length_rest_run_le (d : Decoder) (input : Bytes) :
    (d.run input).rest.length ≤ input.length :=
  Page.length_readBytes_le _ _ input

theorem length_rest_decode_le (d : Decoder) (input : Bytes) (room : Nat) :
    (decode d input room).rest.length ≤ input.length := by
  fun_induction decode d input room with
  | case1 d input room run => exact length_rest_run_le d input
  | case2 d input room run delivered undelivered left hstop hlt more ih =>
    exact Nat.le_trans ih (length_rest_run_le d input)
  | case3 d input room run => exact length_rest_run_le d input

theorem take_ne_nil {bs : Bytes} (hroom : 0 < room) (h : bs ≠ []) : bs.take room ≠ [] := by
  intro hnil
  exact h ((List.take_eq_nil_iff.1 hnil).resolve_left (Nat.ne_of_gt hroom))

/-- Decoding gets on as its first run does: it delivers bytes or reads some of the input. -/
theorem decode_progress (hroom : 0 < room)
    (hrun : (d.run input).written ≠ [] ∨ (d.run input).rest.length < input.length) :
    (decode d input room).delivered ≠ [] ∨ (decode d input room).rest.length < input.length := by
  have htake : (d.run input).written ≠ [] → (d.run input).written.take room ≠ [] :=
    take_ne_nil hroom
  rw [decode]
  dsimp only
  split
  · exact hrun.imp_left htake
  · split
    · refine hrun.imp (fun hne hnil => ?_) (Nat.lt_of_le_of_lt (length_rest_decode_le _ _ _))
      exact htake hne (List.append_eq_nil_iff.1 hnil).1
    · exact hrun.imp_left htake

/-- Without bytes that found no room, filling a buffer goes on with decoding. -/
theorem undelivered_eq_nil (h : i.decoder.Owes final input out)
    (hnone : ¬ (i.undelivered ≠ [] ∧ ¬ i.hasFailed = true)) : i.undelivered = [] := by
  have hfailed : ¬ i.hasFailed = true := by
    rw [hasFailed, beq_iff_eq]
    exact h.owes.ne_failed
  exact Decidable.byContradiction fun hne => hnone ⟨hne, hfailed⟩

theorem fill_owes (room : Nat) (h : i.Owes final input out) :
    (i.fill input room).Owes final out := by
  obtain ⟨later, rfl, hnext⟩ := h
  unfold fill
  split
  · refine ⟨i.undelivered.drop room ++ later, ?_, later, rfl, hnext⟩
    rw [← List.append_assoc, List.take_append_drop]
  · next hnone =>
    have hnil := undelivered_eq_nil hnext hnone
    rw [hnil, List.nil_append]
    exact decode_owes _ _ _ _ hnext

theorem length_rest_fill_le (i : Inflater) (input : Bytes) (room : Nat) :
    (i.fill input room).rest.length ≤ input.length := by
  unfold fill
  split
  · exact Nat.le_refl _
  · exact length_rest_decode_le _ input room

/-- Filling gets on, unless there is nothing left to read or to deliver. -/
theorem fill_progress (hroom : 0 < room) (hinput : input ≠ [] ∨ i.undelivered ≠ [])
    (hended : i.hasEnded = false) (halive : i.hasFailed = false)
    (hidle : i.decoder.waiting = none → i.decoder.bits = [])
    (hasks : ∀ distance, i.decoder.waiting ≠ some (.copy 0 distance)) :
    (i.fill input room).delivered ≠ [] ∨ (i.fill input room).rest.length < input.length := by
  unfold fill
  split
  · next hsome => exact .inl (take_ne_nil hroom hsome.1)
  · next hnone =>
    have hnil : i.undelivered = [] :=
      Decidable.byContradiction fun hne => hnone ⟨hne, Bool.eq_false_iff.1 halive⟩
    have hrunning : i.decoder.phase.isFinal = false := by
      rw [hasEnded, hnil, List.isEmpty_nil, Bool.and_true] at hended
      rw [hasFailed] at halive
      cases hphase : i.decoder.phase <;> simp_all [Phase.isFinal]
    have hinput' := hinput.resolve_right fun hne => hne hnil
    exact decode_progress hroom (i.decoder.run_progress hinput' hrunning hidle hasks)

/-! ### Enlarging the buffer -/

/-- The inflater is between two messages, and its window holds a history. -/
structure Holds (i : Inflater) (history : Bytes) : Prop where
  phase_eq : i.decoder.phase = .start
  bits_eq : i.decoder.bits = []
  waiting_eq : i.decoder.waiting = none
  window : i.decoder.window.Holds history
  undelivered_eq : i.undelivered = []

theorem holds_start : start.Holds [] :=
  ⟨rfl, rfl, rfl, Window.holds_empty, rfl⟩

/-- A compressor may forget where its history began. -/
theorem Holds.suffix {history recent : Bytes} (h : i.Holds history) (hrecent : recent <:+ history) :
    i.Holds recent :=
  { h with window := h.window.suffix hrecent }

/-- An inflater that owes nothing more is between two messages. -/
theorem Owes.holds (h : i.Owes final [] out) (hundelivered : i.undelivered = []) :
    i.Holds final ∧ out = [] := by
  obtain ⟨later, rfl, hnext⟩ := h
  have howes := hnext.owes
  rw [bitsOf_nil, List.append_nil] at howes
  have hwaiting : i.decoder.waiting = none := by
    cases hwaiting : i.decoder.waiting with
    | none => rfl
    | some e =>
      -- The bits of the end are still to come, and these are more than the decoder keeps.
      rw [hwaiting] at howes
      have hlong := howes.of_waiting.2
      have hshort := hnext.length_bits_le
      omega
  rw [hnext.idle hwaiting] at howes
  obtain ⟨hphase, -, hwindow, rfl⟩ := howes.of_nil
  rw [hundelivered]
  exact ⟨⟨hphase, hnext.idle hwaiting, hwaiting, hwindow, hundelivered⟩, rfl⟩

/-- Where a stream has ended, a new one begins. -/
theorem Owes.restart (h : i.Owes final input out) (hended : i.hasEnded = true) :
    start.Owes final input out := by
  obtain ⟨later, rfl, hnext⟩ := h
  rw [hasEnded, Bool.and_eq_true, beq_iff_eq, List.isEmpty_iff] at hended
  have howes := hnext.owes
  rw [hended.1] at howes
  rw [hended.2]
  refine ⟨later, rfl, ?_, Nat.zero_le _, fun _ => rfl, nofun⟩
  generalize hwaiting : i.decoder.waiting = e at howes
  cases howes with
  | leads hw h =>
    obtain ⟨rfl, hrestart⟩ := h.of_ended
    rw [hnext.idle hwaiting] at hrestart
    exact .leads Window.holds_empty hrestart

/-- The parts of the message so far and what is owed make up the message. A stream that has ended has
bytes left to deliver. -/
structure Progress.Owes (p : Progress) (final message : Bytes) : Prop where
  owes : ∃ later, p.parts.reverse.flatten ++ later = message ∧ p.inflater.Owes final p.rest later
  sound : p.IsSound
  running : p.inflater.hasEnded = false

namespace Progress

variable {p : Progress} {message : Bytes} {capacity : Nat}

theorem Owes.advance (h : p.Owes final message) (hroom : p.room? = some capacity) :
    (p.advance capacity).Owes final message := by
  obtain ⟨later, hlater, howes⟩ := h.owes
  obtain ⟨later', rfl, hnext⟩ := fill_owes (capacity - p.size) howes
  have hparts : (p.advance capacity).parts.reverse.flatten ++ later' = message := by
    rw [← hlater, ← List.append_assoc]
    simp only [Progress.advance, List.reverse_cons, List.flatten_append, List.flatten_cons,
      List.flatten_nil, List.append_nil]
  refine ⟨⟨later', hparts, ?_⟩, h.sound.advance hroom, p.hasEnded_advance capacity⟩
  rw [inflater_advance]
  split
  · next hended => exact hnext.restart hended
  · exact hnext

/-- Bytes find no room only when the buffer is full. -/
theorem undelivered_advance (p : Progress) (hlt : p.size < capacity)
    (hsize : (p.advance capacity).size < capacity) :
    (p.advance capacity).inflater.undelivered = [] := by
  have hfull := (fill_within p.inflater p.rest (capacity - p.size)).full
  rw [inflater_advance]
  split
  · rfl
  · refine Decidable.byContradiction fun hne => ?_
    have hlength := hfull hne
    change p.size + (p.inflater.fill p.rest (capacity - p.size)).delivered.length < capacity at hsize
    omega

/-- The buffer is not overfilled. -/
theorem size_advance_le (p : Progress) (hlt : p.size < capacity) :
    (p.advance capacity).size ≤ (p.advance capacity).capacity := by
  have hle := (fill_within p.inflater p.rest (capacity - p.size)).length_le
  show p.size + (p.inflater.fill p.rest (capacity - p.size)).delivered.length ≤ capacity
  omega

/-- A filling that gets on leaves less to do: the buffer has more bytes, or the input fewer. -/
theorem remaining_advance_lt (hsound : p.IsSound) (hroom : p.room? = some capacity)
    (hlt : p.size < capacity)
    (hprogress : (p.inflater.fill p.rest (capacity - p.size)).delivered ≠ [] ∨
      (p.inflater.fill p.rest (capacity - p.size)).rest.length < p.rest.length) :
    (p.advance capacity).remaining < p.remaining := by
  have hrest := length_rest_fill_le p.inflater p.rest (capacity - p.size)
  have hlimit := (hsound.advance hroom).capacity_le
  have hdelivered := (fill_within p.inflater p.rest (capacity - p.size)).length_le
  change capacity ≤ capacityLimit at hlimit
  show (p.inflater.fill p.rest (capacity - p.size)).rest.length +
    (capacityLimit - (p.size + (p.inflater.fill p.rest (capacity - p.size)).delivered.length)) <
      p.rest.length + (capacityLimit - p.size)
  rcases hprogress with hdelivers | hreads
  · have hpos := List.length_pos_iff.2 hdelivers
    omega
  · omega

/-- Each filling of the buffer leaves less to do, until there is nothing to do. -/
theorem Owes.remaining_lt (h : p.Owes final message) (hroom : p.room? = some capacity)
    (hlt : p.size < capacity)
    (hdone : ¬ ((p.advance capacity).rest = [] ∧ (p.advance capacity).size < capacity)) :
    (p.advance capacity).remaining < p.remaining := by
  obtain ⟨later, -, howes⟩ := h.owes
  have hrest := length_rest_fill_le p.inflater p.rest (capacity - p.size)
  -- With nothing to read and nothing to deliver, nothing would have been left to do.
  have hmore : p.rest ≠ [] ∨ p.inflater.undelivered ≠ [] := by
    refine Decidable.byContradiction fun hnothing => hdone ?_
    rw [not_or, Decidable.not_not, Decidable.not_not] at hnothing
    obtain ⟨hinput, hundelivered⟩ := hnothing
    rw [hinput] at howes
    obtain ⟨-, rfl⟩ := howes.holds hundelivered
    obtain ⟨later', hnil, -⟩ := fill_owes (capacity - p.size) howes
    obtain ⟨hdelivered, -⟩ := List.append_eq_nil_iff.1 hnil.symm
    constructor
    · rw [hinput, List.length_nil] at hrest
      show (p.inflater.fill p.rest (capacity - p.size)).rest = []
      rw [hinput]
      exact List.length_eq_zero_iff.1 (Nat.le_zero.1 hrest)
    · show p.size + (p.inflater.fill p.rest (capacity - p.size)).delivered.length < capacity
      rw [hinput, hdelivered]
      exact hlt
  obtain ⟨_, _, hdecoder⟩ := howes
  exact remaining_advance_lt h.sound hroom hlt (fill_progress (Nat.sub_pos_of_lt hlt) hmore h.running
    (beq_eq_false_iff_ne.2 hdecoder.owes.ne_failed) hdecoder.idle hdecoder.asks)

/-- A message that is owed in full is given if the buffer can become longer than it, and is too long
otherwise. -/
theorem Owes.finish (h : p.Owes final message) (hsize : p.size ≤ p.capacity) :
    (message.length < finalCapacity p.capacity ∧
        ∃ i, p.finish = (.ok message, i) ∧ i.Holds final) ∨
      (finalCapacity p.capacity ≤ message.length ∧ p.finish.1 = .error .tooLarge) := by
  -- No error but that of a full buffer is met, and each filling leaves less of the message to do.
  fun_induction Progress.finish p with
  | case1 p hnone =>
    obtain ⟨later, hlater, -⟩ := h.owes
    have hparts : p.parts.reverse.flatten.length ≤ message.length := by
      rw [← hlater, List.length_append]
      exact Nat.le_add_right _ _
    refine .inr ⟨?_, rfl⟩
    rw [← full_of_none hsize hnone, h.sound.size_eq]
    exact hparts
  | case2 p capacity hroom next hfailed =>
    obtain ⟨later, -, later', -, hnext⟩ := (h.advance hroom).owes
    rw [hasFailed, beq_iff_eq] at hfailed
    exact absurd hfailed hnext.owes.ne_failed
  | case3 p capacity hroom next hfailed hdone =>
    obtain ⟨hlt, hfinal⟩ := room_of_some hsize hroom
    have hadvance := h.advance hroom
    obtain ⟨later, hlater, hnext⟩ := hadvance.owes
    rw [hdone.1] at hnext
    obtain ⟨hholds, rfl⟩ := hnext.holds (p.undelivered_advance hlt hdone.2)
    rw [List.append_nil] at hlater
    refine .inl ⟨?_, _, by rw [hlater], hholds⟩
    calc message.length = (p.advance capacity).size := by rw [hadvance.sound.size_eq, hlater]
      _ < capacity := hdone.2
      _ ≤ finalCapacity capacity := le_finalCapacity capacity
      _ = finalCapacity p.capacity := hfinal
  | case4 p capacity hroom next hfailed hdone hless ih =>
    obtain ⟨hlt, hfinal⟩ := room_of_some hsize hroom
    rw [← hfinal]
    exact ih (h.advance hroom) (p.size_advance_le hlt)
  | case5 p capacity hroom next hfailed hdone hless =>
    have hlt := (room_of_some hsize hroom).1
    exact absurd (h.remaining_lt hroom hlt hdone) hless

end Progress

/-- An inflater between two messages owes the next one. -/
theorem Holds.owes {history payload message history' : Bytes} (h : i.Holds history)
    (hcarries : Carries history payload message history') :
    i.Owes history' (payload ++ tail) message := by
  refine ⟨message, ?_, ?_, ?_, fun _ => h.bits_eq, ?_⟩
  · rw [h.undelivered_eq, List.nil_append]
  · rw [h.phase_eq, h.waiting_eq, h.bits_eq, List.nil_append, bitsOf_append]
    exact .leads h.window hcarries.leads
  · rw [h.bits_eq]
    exact Nat.zero_le 8
  · rw [h.waiting_eq]
    nofun

/-- A message that an inflater owes, which is not at the end of a stream. -/
theorem inflate_of_owes {payload message : Bytes} (hended : i.hasEnded = false)
    (h : i.Owes final (payload ++ tail) message) :
    (message.length < sizeLimit payload.length ∧
        ∃ i', i.inflate payload = (.ok message, i') ∧ i'.Holds final) ∨
      (sizeLimit payload.length ≤ message.length ∧ (i.inflate payload).1 = .error .tooLarge) := by
  have hcapacity : firstCapacity payload.length ≤ capacityLimit := by
    unfold firstCapacity capacityLimit
    omega
  let first : Progress := ⟨i, payload ++ tail, [], 0, firstCapacity payload.length⟩
  have hfirst : first.Owes final message := ⟨⟨message, rfl, h⟩, ⟨rfl, hcapacity⟩, hended⟩
  exact hfirst.finish (Nat.zero_le _)

/-- **An inflater undoes a compressor**: it gives the message that a payload carries, and holds the
history that the message leaves behind. -/
theorem inflate_of_carries {history payload message history' : Bytes} (h : i.Holds history)
    (hcarries : Carries history payload message history') (hmessage : message.length < maxMessage) :
    ∃ i', i.inflate payload = (.ok message, i') ∧ i'.Holds history' := by
  have hended : i.hasEnded = false := by
    rw [hasEnded, h.phase_eq]
    rfl
  have hlimit : maxMessage ≤ sizeLimit payload.length := maxMessage_le_finalCapacity _
  obtain ⟨-, hgiven⟩ | ⟨hlong, -⟩ := inflate_of_owes hended (h.owes hcarries)
  · exact hgiven
  · omega

end Switchyard.Inflater
