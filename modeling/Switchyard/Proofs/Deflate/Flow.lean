import Switchyard.Proofs.Deflate.Pages

/-!
# A stream without limits

`Flow` is a compressed stream read byte by byte, with all of its history and with no page or buffer that
could be full: whatever a bit asks for is given at once. Where a stream ends, a new one begins with the
next byte. What a decoder keeps of the history is `Window.of`, which is enough for every copy that a
phase can ask for (`back_of`, `fits_of_step`).
-/

namespace Switchyard.Deflate

/-! ### Flows -/

/-- A stream, as far as it was read. -/
structure Flow where
  phase : Phase
  /-- All bytes of the stream so far. -/
  history : Bytes
  /-- The bytes that were given and not taken. -/
  given : Bytes

namespace Flow

/-- The byte at a distance from the end of a history. Before its first byte lie zeros. -/
def back (history : Bytes) (distance : Nat) : UInt8 :=
  if distance ≤ history.length then history.getD (history.length - distance) 0 else 0

/-- Gives a byte. -/
def put (f : Flow) (b : UInt8) : Flow :=
  { f with history := f.history ++ [b], given := f.given ++ [b] }

/-- Gives the bytes of a copy. -/
def copy (f : Flow) (distance : Nat) : Nat → Flow
  | 0 => f
  | n + 1 => (f.put (back f.history distance)).copy distance n

/-- Gives the bytes that were asked for. -/
def emit (f : Flow) : Option Emission → Flow
  | none => f
  | some (.literal b) => f.put b
  | some (.copy n distance) => f.copy distance n

/-- Reads a bit. -/
def step (f : Flow) (bit : Bool) : Flow :=
  emit { f with phase := (f.phase.step bit).1 } (f.phase.step bit).2

/-- Reads the bits of a byte. Those that are left when the phase begins with a new byte do not count.
-/
def readBits (f : Flow) : List Bool → Flow
  | [] => f
  | bit :: bits => if (f.step bit).phase.startsByte then f.step bit else (f.step bit).readBits bits

/-- Where a stream has ended, a new one begins. -/
def fresh (f : Flow) : Flow :=
  if f.phase = .ended then ⟨.start, [], f.given⟩ else f

/-- Reads a byte. -/
def readByte (f : Flow) (b : UInt8) : Flow :=
  match f.phase with
  | .stored last count => fresh { f.put b with phase := .afterStored last count }
  | _ => (f.readBits (byteBits b)).fresh

/-- Reads bytes. -/
def read (f : Flow) (input : Bytes) : Flow :=
  input.foldl readByte f

/-- A stream of which nothing has been read. -/
def start : Flow := ⟨.start, [], []⟩

/-- The stream after bytes that were given before. -/
def after (f : Flow) (before : Bytes) : Flow :=
  { f with given := before ++ f.given }

variable {f : Flow}

@[simp] theorem read_nil (f : Flow) : f.read [] = f := rfl

@[simp] theorem read_cons (f : Flow) (b : UInt8) (bs : Bytes) :
    f.read (b :: bs) = (f.readByte b).read bs := rfl

theorem read_append (f : Flow) (bs more : Bytes) : f.read (bs ++ more) = (f.read bs).read more :=
  List.foldl_append

@[simp] theorem phase_copy (f : Flow) (distance n : Nat) : (f.copy distance n).phase = f.phase := by
  induction n generalizing f with
  | zero => rfl
  | succ n ih => exact ih _

@[simp] theorem phase_emit (f : Flow) (e : Option Emission) : (f.emit e).phase = f.phase := by
  cases e with
  | none => rfl
  | some e =>
    cases e with
    | literal b => rfl
    | copy n distance => exact phase_copy f distance n

theorem phase_step (f : Flow) (bit : Bool) : (f.step bit).phase = (f.phase.step bit).1 :=
  phase_emit _ _

theorem readBits_cons (f : Flow) (bit : Bool) (bits : List Bool) :
    f.readBits (bit :: bits) =
      (f.step bit).readBits (if (f.phase.step bit).1.startsByte then [] else bits) := by
  rw [readBits, phase_step]
  split <;> rfl

theorem fresh_of_ne (h : f.phase ≠ .ended) : f.fresh = f :=
  if_neg h

theorem readByte_of_stored {last : Bool} {count : Nat} (h : f.phase = .stored last count)
    (b : UInt8) : f.readByte b = fresh { f.put b with phase := .afterStored last count } := by
  rw [readByte, h]

theorem readByte_of_ne_stored (h : ∀ last count, f.phase ≠ .stored last count) (b : UInt8) :
    f.readByte b = (f.readBits (byteBits b)).fresh := by
  unfold readByte
  split
  · next hphase => exact absurd hphase (h _ _)
  · rfl

/-! ### Bytes that were given before -/

section Before

variable (before : Bytes)

theorem after_put (b : UInt8) : (f.after before).put b = (f.put b).after before := by
  simp only [after, put, List.append_assoc]

theorem after_copy (distance n : Nat) :
    (f.after before).copy distance n = (f.copy distance n).after before := by
  induction n generalizing f with
  | zero => rfl
  | succ n ih =>
    rw [copy, after_put, ih]
    rfl

theorem after_emit (e : Option Emission) :
    (f.after before).emit e = (f.emit e).after before := by
  cases e with
  | none => rfl
  | some e =>
    cases e with
    | literal b => exact after_put before b
    | copy n distance => exact after_copy before distance n

theorem after_step (bit : Bool) : (f.after before).step bit = (f.step bit).after before :=
  after_emit (f := { f with phase := (f.phase.step bit).1 }) before _

theorem after_readBits (bits : List Bool) :
    (f.after before).readBits bits = (f.readBits bits).after before := by
  induction bits generalizing f with
  | nil => rfl
  | cons bit bits ih =>
    have hphase : (f.after before).phase = f.phase := rfl
    rw [readBits_cons, readBits_cons, hphase, after_step]
    split
    · rfl
    · exact ih

theorem after_fresh : (f.after before).fresh = f.fresh.after before := by
  by_cases h : f.phase = .ended
  · rw [fresh, fresh, if_pos h]
    exact if_pos h
  · rw [fresh_of_ne h]
    exact fresh_of_ne h

theorem after_readByte (b : UInt8) : (f.after before).readByte b = (f.readByte b).after before := by
  by_cases h : ∃ last count, f.phase = .stored last count
  · obtain ⟨last, count, h⟩ := h
    rw [readByte_of_stored h, readByte_of_stored (f := f.after before) h, after_put, ← after_fresh]
    rfl
  · have hne : ∀ last count, f.phase ≠ .stored last count := fun last count heq =>
      h ⟨last, count, heq⟩
    rw [readByte_of_ne_stored hne, readByte_of_ne_stored (f := f.after before) hne, after_readBits,
      after_fresh]

/-- What is read later does not depend on what was given before. -/
theorem after_read (input : Bytes) : (f.after before).read input = (f.read input).after before := by
  induction input generalizing f with
  | nil => rfl
  | cons b bs ih => rw [read_cons, after_readByte, ih, read_cons]

end Before

/-! ### Streams that are not well formed -/

theorem step_failed (h : f.phase = .failed) (bit : Bool) : f.step bit = f := by
  obtain ⟨phase, history, given⟩ := f
  cases h
  rfl

theorem readBits_failed (h : f.phase = .failed) (bits : List Bool) : f.readBits bits = f := by
  induction bits with
  | nil => rfl
  | cons bit bits ih =>
    rw [readBits, step_failed h, ih, ite_self]

/-- Nothing is read any more. -/
theorem read_failed (h : f.phase = .failed) (input : Bytes) : f.read input = f := by
  induction input with
  | nil => rfl
  | cons b bs ih =>
    have hstored : ∀ last count, f.phase ≠ .stored last count := by
      rw [h]
      nofun
    have hended : f.phase ≠ .ended := by
      rw [h]
      nofun
    rw [read_cons, readByte_of_ne_stored hstored, readBits_failed h, fresh_of_ne hended, ih]

/-! ### What was given stays -/

theorem after_given (f : Flow) : after { f with given := [] } f.given = f := by
  simp only [after, List.append_nil]

theorem given_read_prefix (f : Flow) (input : Bytes) : f.given <+: (f.read input).given := by
  have hread := after_read (f := { f with given := [] }) f.given input
  rw [after_given] at hread
  rw [hread]
  exact List.prefix_append _ _

theorem given_readBits_prefix (f : Flow) (bits : List Bool) :
    f.given <+: (f.readBits bits).fresh.given := by
  have hread := after_readBits (f := { f with given := [] }) f.given bits
  rw [after_given] at hread
  rw [hread, after_fresh]
  exact List.prefix_append _ _

theorem given_copy_prefix (f : Flow) (distance n : Nat) : f.given <+: (f.copy distance n).given := by
  induction n generalizing f with
  | zero => exact List.prefix_rfl
  | succ n ih => exact (List.prefix_append _ _).trans (ih (f.put _))

/-- What is asked for is given, unless it is an empty copy. -/
theorem given_emit_ne_nil (f : Flow) {e : Emission} (h : ∀ distance, e ≠ .copy 0 distance) :
    (f.emit (some e)).given ≠ [] := by
  cases e with
  | literal b => exact List.concat_ne_nil b f.given
  | copy n distance =>
    cases n with
    | zero => exact absurd rfl (h distance)
    | succ n =>
      intro hnil
      have hprefix := given_copy_prefix (f.put (back f.history distance)) distance n
      rw [show (f.put (back f.history distance)).copy distance n = f.copy distance (n + 1) from rfl,
        show (f.copy distance (n + 1)).given = [] from hnil, List.prefix_nil] at hprefix
      exact List.concat_ne_nil _ _ hprefix

end Flow

/-! ### What a window has of a history -/

namespace Window

/-- The window of a stream that has given these bytes. -/
def of (history : Bytes) : Window :=
  history.foldl push empty

theorem of_concat (history : Bytes) (b : UInt8) : of (history ++ [b]) = (of history).push b :=
  List.foldl_append

theorem holds_foldl {w : Window} {history : Bytes} (h : w.Holds history) (bs : Bytes) :
    (bs.foldl push w).Holds (history ++ bs) := by
  induction bs generalizing w history with
  | nil => rwa [List.append_nil]
  | cons b bs ih =>
    rw [List.append_cons]
    exact ih (h.push b)

theorem holds_of (history : Bytes) : (of history).Holds history :=
  holds_foldl holds_empty history

theorem size_push {w : Window} (h : w.bytes.size < 2 * pageSize) (b : UInt8) :
    (w.push b).bytes.size ≤ w.bytes.size + 1 ∧
      (w.push b).bytes.size % pageSize = (w.bytes.size + 1) % pageSize := by
  unfold push
  dsimp only
  rw [Array.size_push]
  split
  · rw [Array.size_push]
    exact ⟨Nat.le_refl _, rfl⟩
  · have hfull : w.bytes.size + 1 = 2 * pageSize := by omega
    have hextract : ((w.bytes.push b).extract pageSize (2 * pageSize)).size = pageSize := by
      rw [Array.size_extract, Array.size_push, hfull, Nat.min_self]
      omega
    rw [hfull, hextract]
    exact ⟨by omega, by rw [Nat.mod_self, Nat.mul_mod_left]⟩

/-- The window has no more bytes than were given, and its size tells how far the page is filled. -/
theorem size_foldl {w : Window} (h : w.bytes.size < 2 * pageSize) (bs : Bytes) :
    (bs.foldl push w).bytes.size ≤ w.bytes.size + bs.length ∧
      (bs.foldl push w).bytes.size % pageSize = (w.bytes.size + bs.length) % pageSize := by
  induction bs generalizing w with
  | nil => exact ⟨Nat.le_refl _, rfl⟩
  | cons b bs ih =>
    have hlt := (holds_nil h).push b |>.size_lt
    obtain ⟨hle, hmod⟩ := size_push h b
    obtain ⟨hle', hmod'⟩ := ih hlt
    rw [List.foldl_cons, List.length_cons]
    refine ⟨by omega, ?_⟩
    rw [hmod', Nat.add_mod, hmod, ← Nat.add_mod, Nat.add_assoc, Nat.add_comm 1]

theorem size_of (history : Bytes) :
    (of history).bytes.size ≤ history.length ∧
      (of history).bytes.size % pageSize = history.length % pageSize := by
  have hsize := size_foldl (w := empty) (by decide) history
  rwa [show empty.bytes.size = 0 from rfl, Nat.zero_add] at hsize

theorem back_of (history : Bytes) {distance : Nat} (h : distance ≤ pageSize) :
    (of history).back distance = Flow.back history distance := by
  obtain ⟨hsize, -⟩ := size_of history
  rw [Flow.back]
  by_cases hpos : 1 ≤ distance
  · by_cases hle : distance ≤ history.length
    · rw [(holds_of history).back hpos hle h, if_pos hle]
    · rw [Window.back, if_neg hle, if_neg (by omega)]
  · obtain rfl : distance = 0 := by omega
    simp [Window.back, Array.getD_eq_getD_getElem?]

end Window

/-! ### What a phase can ask for -/

/-- A field for the distance of a copy has not all of its bits yet, and it is one of those that are
known. -/
def Phase.IsSound : Phase → Prop
  | copyDistance _ _ _ d bits => d ∈ copyDistances ∧ bits.length < d.extraBits
  | _ => True

/-- Bytes that are asked for before a phase: the phase belongs to a block with codes, and a copy refers
back no farther than the window reaches. -/
structure Emission.Fits (e : Emission) (p : Phase) : Prop where
  elements : ∃ last codes, p = .elements last codes
  near : ∀ n distance, e = .copy n distance → distance ≤ pageSize

namespace Phase

theorem isSound_afterBlock (last : Bool) : (afterBlock last).IsSound := by
  cases last <;> trivial

theorem isSound_afterStored (last : Bool) (count : Nat) : (afterStored last count).IsSound := by
  unfold afterStored
  split
  · exact isSound_afterBlock last
  · trivial

theorem isSound_afterHeader (last : Bool) (kind : Nat) : (afterHeader last kind).IsSound := by
  unfold afterHeader
  repeat' split
  all_goals trivial

theorem isSound_afterStoredLengths (last : Bool) (n : Nat) : (afterStoredLengths last n).IsSound := by
  unfold afterStoredLengths
  dsimp only
  repeat' split
  · trivial
  · exact isSound_afterBlock last
  · trivial

theorem isSound_afterLengths (last : Bool) (c : Counts) (code : CodeTree) (done : List Nat) :
    (afterLengths last c code done).IsSound := by
  unfold afterLengths
  dsimp only
  repeat' split
  all_goals trivial

theorem isSound_afterLengthCode (last : Bool) (c : Counts) (described : List Nat) :
    (afterLengthCode last c described).IsSound := by
  unfold afterLengthCode
  split <;> trivial

theorem isSound_afterRun (last : Bool) (c : Counts) (code : CodeTree) (done : List Nat)
    (run : LengthRun) : (afterRun last c code done run).IsSound := by
  cases run with
  | one length => exact isSound_afterLengths last c code _
  | zeros times => trivial
  | again times => cases done <;> trivial

/-- What a bit leads to is sound, and what it asks for fits there. -/
structure Fits (r : Phase × Option Emission) : Prop where
  sound : r.1.IsSound
  fits : ∀ e, r.2 = some e → e.Fits r.1

theorem Fits.of_none {p : Phase} (h : p.IsSound) : Fits (p, none) :=
  ⟨h, nofun⟩

theorem Fits.literal (last : Bool) (codes : Codes) (b : UInt8) :
    Fits (elements last codes, some (.literal b)) where
  sound := trivial
  fits e he := by
    cases he
    exact ⟨⟨last, codes, rfl⟩, nofun⟩

theorem Fits.copy (last : Bool) (codes : Codes) (length : Nat) {distance : Nat}
    (h : distance ≤ pageSize) : Fits (elements last codes, some (.copy length distance)) where
  sound := trivial
  fits e he := by
    cases he
    refine ⟨⟨last, codes, rfl⟩, fun n d hd => ?_⟩
    cases hd
    exact h

/-- The bits of a distance do not write more than its base and the number of bits allow. -/
theorem distance_le {d : Based} (hd : d ∈ copyDistances) {bits : Gathered}
    (hbits : bits.length = d.extraBits) : d.base + fieldValue bits ≤ pageSize := by
  obtain ⟨j, hj⟩ := List.getElem?_of_mem hd
  have hlt : fieldValue bits < 2 ^ d.extraBits := hbits ▸ fieldValue_lt bits
  exact (copyDistances_bounds hj hlt).2

theorem fits_step {p : Phase} (h : p.IsSound) (bit : Bool) : Fits (p.step bit) := by
  -- Each phase leads on in one of a few ways; only elements and distances ask for bytes.
  cases p with
  | header bits =>
    rw [step]
    split
    · exact .of_none trivial
    · exact .of_none (isSound_afterHeader _ _)
  | storedLengths last bits =>
    rw [step]
    split
    · exact .of_none trivial
    · exact .of_none (isSound_afterStoredLengths _ _)
  | stored last count => exact .of_none trivial
  | counts last bits =>
    rw [step]
    dsimp only
    split
    · exact .of_none trivial
    · split <;> exact .of_none trivial
  | lengthCode last c bits =>
    rw [step]
    split
    · exact .of_none trivial
    · exact .of_none (isSound_afterLengthCode _ _ _)
  | lengths last c code done place =>
    rw [step]
    split
    · exact .of_none trivial
    · exact .of_none (isSound_afterRun _ _ _ _ _)
    · exact .of_none trivial
  | lengthRun last c code done length times bits =>
    rw [step]
    split
    · exact .of_none trivial
    · exact .of_none (isSound_afterLengths _ _ _ _)
  | element last codes place =>
    rw [step]
    split
    · exact .of_none trivial
    · split
      · exact .literal last codes _
      · exact .of_none (isSound_afterBlock last)
      · split <;> exact .of_none trivial
      · exact .of_none trivial
    · exact .of_none trivial
  | copyLength last codes length bits =>
    rw [step]
    split <;> exact .of_none trivial
  | distance last codes length place =>
    rw [step]
    split
    · exact .of_none trivial
    · split
      · next d hd =>
        split
        · next hextra =>
          have hnear : d.base + fieldValue [] ≤ pageSize :=
            distance_le (List.mem_of_getElem? hd) hextra.symm
          exact .copy last codes length hnear
        · next hextra =>
          exact .of_none ⟨List.mem_of_getElem? hd, Nat.pos_of_ne_zero hextra⟩
      · exact .of_none trivial
    · exact .of_none trivial
  | copyDistance last codes length d bits =>
    obtain ⟨hd, hlt⟩ := h
    rw [step]
    split
    · next hmore => exact .of_none ⟨hd, hmore⟩
    · next hlast =>
      have hbits : (bit :: bits).length = d.extraBits := by
        rw [List.length_cons] at hlast ⊢
        omega
      exact .copy last codes length (distance_le hd hbits)
  | ended => exact .of_none trivial
  | failed => exact .of_none trivial

end Phase

end Switchyard.Deflate
