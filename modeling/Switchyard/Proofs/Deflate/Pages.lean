import Switchyard.Proofs.Deflate.Blocks

/-!
# What a decoder owes

`Owes` ties a place in a stream to the bytes that are still to come from it. Reading goes on with that:
whatever `Decoder.run` writes is what was owed next, and what it leaves owes the rest (`Decoder.Owes.run`).
It gets on unless there is nothing to read (`Decoder.run_progress`).
-/

namespace Switchyard.Deflate

/-! ### The window -/

/-- The window has all bytes of the history that a stream may refer to. -/
structure Window.Holds (w : Window) (history : Bytes) : Prop where
  size_lt : w.bytes.size < 2 * pageSize
  get (distance : Nat) : 1 ≤ distance → distance ≤ history.length → distance ≤ pageSize →
    distance ≤ w.bytes.size ∧
      w.bytes[w.bytes.size - distance]? = history[history.length - distance]?

namespace Window

variable {w : Window} {history : Bytes}

theorem holds_nil (h : w.bytes.size < 2 * pageSize) : w.Holds [] where
  size_lt := h
  get distance hpos hle := by
    rw [List.length_nil] at hle
    omega

theorem holds_empty : Window.empty.Holds [] :=
  holds_nil (by decide)

/-- Nothing is lost by forgetting where a history began. -/
theorem Holds.suffix {recent : Bytes} (h : w.Holds history) (hrecent : recent <:+ history) :
    w.Holds recent where
  size_lt := h.size_lt
  get distance hpos hle hfar := by
    obtain ⟨older, rfl⟩ := hrecent
    have hlength : distance ≤ (older ++ recent).length := by
      rw [List.length_append]
      omega
    obtain ⟨hsize, hget⟩ := h.get distance hpos hlength hfar
    refine ⟨hsize, ?_⟩
    rw [hget, List.length_append, Nat.add_sub_assoc hle,
      List.getElem?_append_right (Nat.le_add_right _ _), Nat.add_sub_cancel_left]

theorem Holds.back (h : w.Holds history) {distance : Nat} (hpos : 1 ≤ distance)
    (hle : distance ≤ history.length) (hfar : distance ≤ pageSize) :
    w.back distance = history.getD (history.length - distance) 0 := by
  obtain ⟨hsize, hget⟩ := h.get distance hpos hle hfar
  rw [Window.back, if_pos hsize, Array.getD_eq_getD_getElem?, hget, List.getD_eq_getElem?_getD]

/-- The last bytes of an array with one more byte. -/
theorem getElem?_push_sub {bytes : Array UInt8} {b : UInt8}
    (hget : ∀ distance, 1 ≤ distance → distance ≤ history.length → distance ≤ pageSize →
      distance ≤ bytes.size ∧ bytes[bytes.size - distance]? = history[history.length - distance]?)
    {distance : Nat} (hpos : 1 ≤ distance) (hle : distance ≤ (history ++ [b]).length)
    (hfar : distance ≤ pageSize) :
    distance ≤ (bytes.push b).size ∧
      (bytes.push b)[(bytes.push b).size - distance]? =
        (history ++ [b])[(history ++ [b]).length - distance]? := by
  rw [List.length_append, List.length_singleton] at hle ⊢
  rw [Array.size_push]
  by_cases hone : distance = 1
  · subst hone
    simp
  · obtain ⟨hsize, hearlier⟩ := hget (distance - 1) (by omega) (by omega) (by omega)
    refine ⟨by omega, ?_⟩
    rw [Array.getElem?_push, if_neg (by omega), List.getElem?_append_left (by omega)]
    have hleft : bytes.size + 1 - distance = bytes.size - (distance - 1) := by omega
    have hright : history.length + 1 - distance = history.length - (distance - 1) := by omega
    rw [hleft, hright, hearlier]

theorem Holds.push (h : w.Holds history) (b : UInt8) : (w.push b).Holds (history ++ [b]) := by
  have hlt := h.size_lt
  by_cases hroom : (w.bytes.push b).size < 2 * pageSize
  · have hpush : w.push b = ⟨w.bytes.push b⟩ := if_pos hroom
    rw [hpush]
    exact ⟨hroom, fun distance => getElem?_push_sub h.get⟩
  · have hpush : w.push b = ⟨(w.bytes.push b).extract pageSize (w.bytes.push b).size⟩ :=
      if_neg hroom
    -- Just as many bytes are left as may be referred to.
    have hfull : (w.bytes.push b).size = pageSize + pageSize := by
      rw [Array.size_push] at hroom ⊢
      omega
    have hsize : ((w.bytes.push b).extract pageSize (pageSize + pageSize)).size = pageSize := by
      rw [Array.size_extract, hfull, Nat.min_self, Nat.add_sub_cancel]
    rw [hpush, hfull]
    constructor
    · have hpage : 0 < pageSize := by decide
      simp only [hsize]
      omega
    · intro distance hpos hle hfar
      obtain ⟨-, hget⟩ := getElem?_push_sub (b := b) h.get hpos hle hfar
      simp only [hsize]
      refine ⟨hfar, ?_⟩
      have hindex : pageSize + (pageSize - distance) = pageSize + pageSize - distance := by omega
      rw [← hget, Array.getElem?_extract, hfull, Nat.min_self, if_pos (by omega), hindex]

end Window

/-! ### What is owed -/

/-- A phase, the bytes that wait, a window and the bits that are left owe bytes: those that the bits
lead to, or none where the message has ended and its history is left behind. -/
inductive Owes (final : Bytes) :
    Phase → Option Emission → Window → List Bool → Bytes → Prop where
  | leads {p : Phase} {e : Option Emission} {w : Window} {history out : Bytes} {bits : List Bool}
      (hw : w.Holds history) (h : Leads final p e history bits out) : Owes final p e w bits out
  | done {w : Window} (hw : w.Holds final) : Owes final .start none w [] []

namespace Owes

variable {final out : Bytes} {p : Phase} {e : Option Emission} {w : Window} {bits : List Bool}

theorem ne_failed (h : Owes final p e w bits out) : p ≠ .failed := by
  cases h with
  | leads hw h => exact h.ne_failed
  | done hw => nofun

theorem of_waiting {e : Emission} (h : Owes final p (some e) w bits out) :
    p.startsByte = false ∧ 32 ≤ bits.length := by
  cases h with
  | leads hw h => exact h.of_waiting

/-- Where no bits are left, the message has ended. -/
theorem of_nil (h : Owes final p e w [] out) :
    p = .start ∧ e = none ∧ w.Holds final ∧ out = [] := by
  cases h with
  | leads hw h => exact absurd rfl h.bits_ne_nil
  | done hw => exact ⟨rfl, rfl, hw, rfl⟩

/-- A literal is what is owed next. -/
theorem put_literal {b : UInt8} (h : Owes final p (some (.literal b)) w bits out) :
    ∃ out', out = b :: out' ∧ Owes final p none (w.push b) bits out' := by
  cases h with
  | leads hw h =>
    cases h with
    | literal h => exact ⟨_, rfl, .leads (hw.push b) h⟩

/-- So is the byte that a copy begins with. -/
theorem put_copy {n distance : Nat} (h : Owes final p (some (.copy (n + 1) distance)) w bits out) :
    ∃ out', out = w.back distance :: out' ∧
      Owes final p (some (.copy n distance)) (w.push (w.back distance)) bits out' := by
  cases h with
  | leads hw h =>
    cases h with
    | copy hpos hback hfar hb h =>
      rw [hw.back hpos hback hfar, hb]
      exact ⟨_, rfl, .leads (hw.push _) h⟩

theorem copied {distance : Nat} (h : Owes final p (some (.copy 0 distance)) w bits out) :
    Owes final p none w bits out := by
  cases h with
  | leads hw h =>
    cases h with
    | copied h => exact .leads hw h

theorem byteBits_inj {b c : UInt8} (h : byteBits b = byteBits c) : b = c := by
  have hvalue : ∀ b : UInt8, fieldValue (byteBits b).reverse = b.toNat := by
    intro b
    exact fieldValue_numberBits b.toNat_lt
  rw [← UInt8.toNat_inj, ← hvalue b, ← hvalue c, h]

/-- So is the byte of a stored block. -/
theorem put_stored {last : Bool} {count : Nat} {b : UInt8} {more : List Bool}
    (h : Owes final (.stored last count) e w (byteBits b ++ more) out) :
    ∃ out', out = b :: out' ∧
      Owes final (.afterStored last count) none (w.push b) more out' := by
  cases h with
  | leads hw h =>
    generalize hbits : byteBits b ++ more = bits at h
    cases h with
    | bit hp => cases hp
    | @byte last count c history out bits h =>
      obtain ⟨hb, rfl⟩ := List.append_inj hbits (by simp)
      obtain rfl := byteBits_inj hb
      exact ⟨_, rfl, .leads (hw.push b) h⟩

/-- A bit leads on. -/
theorem step {b : Bool} (hp : p.takesBits = true) (h : Owes final p none w (b :: bits) out) :
    Owes final (p.step b).1 (p.step b).2 w ((p.step b).1.enter bits) out := by
  cases h with
  | leads hw h =>
    cases h with
    | bit hp' hstep h =>
      rw [hstep]
      exact .leads hw h
    | byte => cases hp
    | restart => cases hp
    | @flush gathered bits hbits hne =>
      have hlength := congrArg List.length hbits
      rw [List.length_append, List.length_reverse, List.length_cons, length_bitsOf] at hlength
      rw [List.append_cons, ← List.reverse_cons] at hbits
      rw [Phase.step]
      cases bits with
      | nil =>
        -- These are all bits of the lengths, and they announce no bytes.
        rw [List.append_nil] at hbits
        have hgathered : b :: gathered = (bitsOf Inflater.tail).reverse := by
          rw [← hbits, List.reverse_reverse]
        rw [hgathered, if_neg (by decide)]
        exact .done hw
      | cons c bits =>
        rw [List.length_cons] at hlength
        have htail : 8 * Inflater.tail.length = 32 := rfl
        rw [if_pos (by rw [List.length_cons]; omega)]
        exact .leads hw (.flush hbits (List.cons_ne_nil c bits))

end Owes

/-! ### Filling a page -/

namespace Page

variable {p : Page} {final total : Bytes} {size : Nat} {bits : List Bool}

/-- A page of so many bytes, which is full when bytes wait. -/
structure Fills (p : Page) (size : Nat) : Prop where
  size_eq : p.room + p.written.length = size
  full : p.waiting.isSome = true → p.room = 0
  asks (distance : Nat) : p.waiting ≠ some (.copy 0 distance)

theorem Fills.of_idle (hsize : p.room + p.written.length = size) (hnone : p.waiting = none) :
    p.Fills size where
  size_eq := hsize
  full hsome := by
    rw [hnone] at hsome
    cases hsome
  asks distance := by
    rw [hnone]
    nofun

/-- A byte is written to a page that has room. -/
theorem size_put {b : UInt8} (hroom : p.room ≠ 0) (h : p.room + p.written.length = size) :
    (p.put b).room + (p.put b).written.length = size := by
  show p.room - 1 + (b :: p.written).length = size
  rw [List.length_cons]
  omega

theorem Fills.copy (hsize : p.room + p.written.length = size) (distance n : Nat) :
    (p.copy distance n).Fills size := by
  induction n generalizing p with
  | zero => exact .of_idle hsize rfl
  | succ n ih =>
    rw [Page.copy]
    split
    · next hroom => exact ⟨hsize, fun _ => hroom, nofun⟩
    · next hroom => exact ih (size_put hroom hsize)

/-- Bytes that wait are written as far as they fit. -/
theorem Fills.settle (hsize : p.room + p.written.length = size) : p.settle.Fills size := by
  unfold Page.settle
  split
  · next hnone => exact .of_idle hsize hnone
  · next b hsome =>
    split
    · next hroom =>
      refine ⟨hsize, fun _ => hroom, ?_⟩
      rw [hsome]
      nofun
    · next hroom => exact .of_idle (size_put hroom hsize) rfl
  · next n distance hsome => exact Fills.copy hsize distance n

theorem Fills.readBits (h : p.Fills size) (bits : List Bool) : (p.readBits bits).1.Fills size := by
  induction bits generalizing p with
  | nil => exact h
  | cons b bits ih =>
    have hstep : (p.step b).Fills size := Fills.settle h.size_eq
    rw [Page.readBits]
    split
    · exact h
    · dsimp only
      split
      · exact hstep
      · exact ih hstep

/-- Bits are left only when bytes wait. -/
theorem idle_readBits (p : Page) (bits : List Bool) :
    (p.readBits bits).1.waiting = none → (p.readBits bits).2 = [] := by
  induction bits generalizing p with
  | nil => exact fun _ => rfl
  | cons b bits ih =>
    rw [Page.readBits]
    split
    · next hwaiting =>
      intro hnone
      rw [hnone] at hwaiting
      cases hwaiting
    · dsimp only
      split
      · exact fun _ => rfl
      · exact ih _

theorem of_not_isHalted (h : ¬ p.isHalted = true) : p.waiting = none ∧ p.phase.isFinal = false := by
  rw [Page.isHalted, Bool.or_eq_true, not_or] at h
  exact ⟨by simpa using h.1, Bool.eq_false_iff.2 h.2⟩

theorem Fills.readBytes (h : p.Fills size) (bits : List Bool) (input : Bytes) :
    (p.readBytes bits input).1.Fills size := by
  fun_induction Page.readBytes p bits input with
  | case1 p bits => exact h
  | case2 p bits b bs hhalted => exact h
  | case3 p bits b bs hhalted last count hphase hroom => exact h
  | case4 p bits b bs hhalted last count hphase hroom ih =>
    exact ih (.of_idle (size_put hroom h.size_eq) (of_not_isHalted hhalted).1)
  | case5 p bits b bs hhalted p' bits' hread hstored ih =>
    have hnext := h.readBits (byteBits b)
    rw [hread] at hnext
    exact ih hnext

theorem idle_readBytes (hidle : p.waiting = none → bits = []) (input : Bytes) :
    (p.readBytes bits input).1.waiting = none → (p.readBytes bits input).2.1 = [] := by
  fun_induction Page.readBytes p bits input with
  | case1 p bits => exact hidle
  | case2 p bits b bs hhalted => exact hidle
  | case3 p bits b bs hhalted last count hphase hroom => exact hidle
  | case4 p bits b bs hhalted last count hphase hroom ih => exact ih fun _ => rfl
  | case5 p bits b bs hhalted p' bits' hread hstored ih =>
    have hnext := p.idle_readBits (byteBits b)
    rw [hread] at hnext
    exact ih hnext

/-! ### Pages that owe bytes -/

/-- What was written to a page and what is owed make up `total`. -/
def Owes (p : Page) (final : Bytes) (bits : List Bool) (total : Bytes) : Prop :=
  ∃ out, p.written.reverse ++ out = total ∧ Deflate.Owes final p.phase p.waiting p.window bits out

/-- The byte that was owed next is among those that were written. -/
theorem written_put {b : UInt8} {out : Bytes} (h : p.written.reverse ++ b :: out = total) :
    (p.put b).written.reverse ++ out = total := by
  have hwritten : (p.put b).written = b :: p.written := rfl
  rw [hwritten, List.reverse_cons, List.append_assoc]
  exact h

theorem Owes.copy {n distance : Nat} {out : Bytes}
    (hout : p.written.reverse ++ out = total)
    (h : Deflate.Owes final p.phase (some (.copy n distance)) p.window bits out) :
    (p.copy distance n).Owes final bits total := by
  induction n generalizing p out with
  | zero => exact ⟨out, hout, h.copied⟩
  | succ n ih =>
    rw [Page.copy]
    split
    · exact ⟨out, hout, h⟩
    · obtain ⟨out', rfl, hnext⟩ := h.put_copy
      exact ih (written_put hout) hnext

theorem Owes.settle {out : Bytes} (hout : p.written.reverse ++ out = total)
    (h : Deflate.Owes final p.phase p.waiting p.window bits out) :
    p.settle.Owes final bits total := by
  unfold Page.settle
  split
  · exact ⟨out, hout, h⟩
  · next b hsome =>
    split
    · exact ⟨out, hout, h⟩
    · rw [hsome] at h
      obtain ⟨out', rfl, hnext⟩ := h.put_literal
      exact ⟨out', written_put hout, hnext⟩
  · next n distance hsome =>
    rw [hsome] at h
    exact Owes.copy hout h

theorem phase_copy (p : Page) (distance n : Nat) : (p.copy distance n).phase = p.phase := by
  induction n generalizing p with
  | zero => rfl
  | succ n ih =>
    rw [Page.copy]
    split
    · rfl
    · rw [ih]
      rfl

@[simp] theorem phase_settle (p : Page) : p.settle.phase = p.phase := by
  unfold Page.settle
  split
  · rfl
  · split <;> rfl
  · exact phase_copy p _ _

/-- A bit is read when nothing waits. -/
theorem Owes.step {b : Bool} (hwaiting : p.waiting = none) (hp : p.phase.takesBits = true)
    (h : p.Owes final (b :: bits) total) :
    (p.step b).Owes final ((p.step b).phase.enter bits) total := by
  obtain ⟨out, hout, howes⟩ := h
  rw [hwaiting] at howes
  have hphase : (p.step b).phase = (p.phase.step b).1 := phase_settle _
  rw [hphase]
  exact Owes.settle hout (howes.step hp)

theorem takesBits_of_startsByte {q : Phase} (h : q.startsByte = false) (hfailed : q ≠ .failed) :
    q.takesBits = true := by
  cases q with
  | stored => cases h
  | ended => cases h
  | failed => exact absurd rfl hfailed
  | _ => rfl

/-- Bits of a byte are read until bytes have to wait or the phase begins with a new byte. -/
theorem Owes.readBits {more : List Bool} (hbits : bits.length ≤ 8) (hmore : more.length % 8 = 0)
    (hp : bits ≠ [] → p.phase.takesBits = true) (h : p.Owes final (bits ++ more) total) :
    (p.readBits bits).1.Owes final ((p.readBits bits).2 ++ more) total ∧
      (p.readBits bits).2.length ≤ 8 := by
  induction bits generalizing p with
  | nil => exact ⟨h, Nat.zero_le _⟩
  | cons b bits ih =>
    rw [List.length_cons] at hbits
    rw [Page.readBits]
    split
    · exact ⟨h, hbits⟩
    · next hwaiting =>
      have hnone : p.waiting = none := by simpa using hwaiting
      rw [List.cons_append] at h
      have hstep := Owes.step hnone (hp (List.cons_ne_nil b bits)) h
      dsimp only
      split
      · next hstarts =>
        rw [Phase.enter, if_pos hstarts, fromNextByte_append (by omega) hmore] at hstep
        exact ⟨hstep, Nat.zero_le _⟩
      · next hstarts =>
        rw [Phase.enter, if_neg hstarts] at hstep
        have hfailed : (p.step b).phase ≠ .failed := by
          obtain ⟨out, -, howes⟩ := hstep
          exact howes.ne_failed
        exact ih (by omega)
          (fun _ => takesBits_of_startsByte (Bool.eq_false_iff.2 hstarts) hfailed) hstep

/-- Bytes are read until nothing more can be read. -/
theorem Owes.readBytes {input : Bytes} (hbits : bits.length ≤ 8)
    (hidle : p.waiting = none → bits = []) (h : p.Owes final (bits ++ bitsOf input) total) :
    let r := p.readBytes bits input
    r.1.Owes final (r.2.1 ++ bitsOf r.2.2) total ∧ r.2.1.length ≤ 8 := by
  fun_induction Page.readBytes p bits input with
  | case1 p bits => exact ⟨h, hbits⟩
  | case2 p bits b bs hhalted => exact ⟨h, hbits⟩
  | case3 p bits b bs hhalted last count hphase hroom => exact ⟨h, hbits⟩
  | case4 p bits b bs hhalted last count hphase hroom ih =>
    -- A byte of a stored block is taken whole.
    obtain ⟨hwaiting, -⟩ := of_not_isHalted hhalted
    rw [hidle hwaiting, List.nil_append, bitsOf_cons] at h
    obtain ⟨out, hout, howes⟩ := h
    rw [hphase] at howes
    obtain ⟨out', rfl, hnext⟩ := howes.put_stored
    refine ih (Nat.zero_le _) (fun _ => rfl) ⟨out', written_put hout, ?_⟩
    show Deflate.Owes final _ p.waiting _ _ out'
    rw [hwaiting]
    exact hnext
  | case5 p bits b bs hhalted p' bits' hread hstored ih =>
    -- All other phases take the byte bit by bit.
    obtain ⟨hwaiting, hfinal⟩ := of_not_isHalted hhalted
    rw [hidle hwaiting, List.nil_append, bitsOf_cons] at h
    have htakes : p.phase.takesBits = true := by
      cases hphase : p.phase with
      | stored last count => exact absurd hphase (hstored last count)
      | ended =>
        rw [hphase] at hfinal
        cases hfinal
      | failed =>
        rw [hphase] at hfinal
        cases hfinal
      | _ => rfl
    have hidle' := p.idle_readBits (byteBits b)
    have hnext := h.readBits (Nat.le_of_eq (length_byteBits b))
      (by rw [length_bitsOf]; omega) (fun _ => htakes)
    rw [hread] at hnext hidle'
    exact ih hnext.2 hidle' hnext.1

/-! ### What was written stays -/

theorem length_written_le_copy (p : Page) (distance n : Nat) :
    p.written.length ≤ (p.copy distance n).written.length := by
  induction n generalizing p with
  | zero => exact Nat.le_refl _
  | succ n ih =>
    rw [Page.copy]
    split
    · exact Nat.le_refl _
    · exact Nat.le_trans (Nat.le_succ _) (ih (p.put _))

theorem length_written_le_settle (p : Page) : p.written.length ≤ p.settle.written.length := by
  unfold Page.settle
  split
  · exact Nat.le_refl _
  · split
    · exact Nat.le_refl _
    · exact Nat.le_succ _
  · exact length_written_le_copy p _ _

/-- Bytes that wait are written when there is room. -/
theorem length_written_lt_settle (hroom : p.room ≠ 0) (hwaiting : p.waiting ≠ none)
    (hasks : ∀ distance, p.waiting ≠ some (.copy 0 distance)) :
    p.written.length < p.settle.written.length := by
  unfold Page.settle
  split
  · next hnone => exact absurd hnone hwaiting
  · rw [if_neg hroom]
    exact Nat.lt_succ_self _
  · next n distance hsome =>
    cases n with
    | zero => exact absurd hsome (hasks distance)
    | succ n =>
      rw [Page.copy, if_neg hroom]
      exact length_written_le_copy (p.put _) distance n

theorem length_written_le_readBits (p : Page) (bits : List Bool) :
    p.written.length ≤ (p.readBits bits).1.written.length := by
  induction bits generalizing p with
  | nil => exact Nat.le_refl _
  | cons b bits ih =>
    have hstep : p.written.length ≤ (p.step b).written.length :=
      length_written_le_settle
        { p with phase := (p.phase.step b).1, waiting := (p.phase.step b).2 }
    rw [Page.readBits]
    split
    · exact Nat.le_refl _
    · dsimp only
      split
      · exact hstep
      · exact Nat.le_trans hstep (ih (p.step b))

theorem length_readBytes_le (p : Page) (bits : List Bool) (input : Bytes) :
    (p.readBytes bits input).2.2.length ≤ input.length := by
  fun_induction Page.readBytes p bits input with
  | case1 => exact Nat.le_refl _
  | case2 => exact Nat.le_refl _
  | case3 => exact Nat.le_refl _
  | case4 p bits b bs hhalted last count hphase hroom ih => exact Nat.le_succ_of_le ih
  | case5 p bits b bs hhalted p' bits' hread hstored ih => exact Nat.le_succ_of_le ih

/-- A byte is read unless something is in the way. -/
theorem readBytes_cons (p : Page) (bits : List Bool) (b : UInt8) (bs : Bytes) :
    p.readBytes bits (b :: bs) = (p, bits, b :: bs) ∧ (p.isHalted = true ∨ p.room = 0) ∨
      (p.readBytes bits (b :: bs)).2.2.length ≤ bs.length := by
  rw [Page.readBytes]
  split
  · next hhalted => exact .inl ⟨rfl, .inl hhalted⟩
  · split
    · split
      · next hroom => exact .inl ⟨rfl, .inr hroom⟩
      · exact .inr (length_readBytes_le _ _ bs)
    · exact .inr (length_readBytes_le _ _ bs)

end Page

/-! ### Runs of the decoder -/

namespace Decoder

/-- The decoder owes bytes, if this is its input. -/
structure Owes (d : Decoder) (final input out : Bytes) : Prop where
  owes : Deflate.Owes final d.phase d.waiting d.window (d.bits ++ bitsOf input) out
  length_bits_le : d.bits.length ≤ 8
  idle : d.waiting = none → d.bits = []
  asks (distance : Nat) : d.waiting ≠ some (.copy 0 distance)

variable {d : Decoder} {final input out : Bytes}

/-- The page that a run begins with. -/
def page (d : Decoder) : Page :=
  ⟨d.phase, d.waiting, d.window, d.window.pageRoom, []⟩

theorem room_page_pos (d : Decoder) : 0 < d.page.room :=
  Nat.sub_pos_of_lt (Nat.mod_lt _ (by decide))

/-- The bits that a run begins with are those of an element. -/
theorem Owes.takesBits (h : d.Owes final input out) (hbits : d.bits ≠ []) :
    d.page.settle.phase.takesBits = true := by
  rw [Page.phase_settle]
  cases hwaiting : d.waiting with
  | none => exact absurd (h.idle hwaiting) hbits
  | some e =>
    have howes := h.owes
    rw [hwaiting] at howes
    exact Page.takesBits_of_startsByte howes.of_waiting.1 howes.ne_failed

/-- The page of a run when the bits that it begins with are read. -/
theorem Owes.readBits (h : d.Owes final input out) :
    let r := d.page.settle.readBits d.bits
    r.1.Owes final (r.2 ++ bitsOf input) out ∧ r.2.length ≤ 8 :=
  Page.Owes.readBits h.length_bits_le (by rw [length_bitsOf]; omega) h.takesBits
    (Page.Owes.settle rfl h.owes)

theorem fills_readBits (d : Decoder) :
    (d.page.settle.readBits d.bits).1.Fills d.window.pageRoom :=
  (Page.Fills.settle rfl).readBits d.bits

/-- Where a run stops, bits are left only when bytes wait, and the page is full then. -/
theorem fills_run (d : Decoder) (input : Bytes) :
    ((d.run input).decoder.waiting = none → (d.run input).decoder.bits = []) ∧
      ((d.run input).decoder.waiting.isSome = true →
        (d.run input).written.length = d.window.pageRoom) ∧
      ∀ distance, (d.run input).decoder.waiting ≠ some (.copy 0 distance) := by
  have hpage := d.fills_readBits.readBytes (d.page.settle.readBits d.bits).2 input
  refine ⟨Page.idle_readBytes (Page.idle_readBits _ _) input, fun hsome => ?_, hpage.asks⟩
  have hsize := hpage.size_eq
  rw [hpage.full hsome, Nat.zero_add] at hsize
  exact (List.length_reverse).trans hsize

/-- A run writes what is owed next. -/
theorem Owes.run (h : d.Owes final input out) :
    ∃ out', out = (d.run input).written ++ out' ∧
      (d.run input).decoder.Owes final (d.run input).rest out' := by
  obtain ⟨hidle, -, hasks⟩ := d.fills_run input
  obtain ⟨hpage, hbits⟩ := h.readBits
  obtain ⟨⟨out', hout, howes⟩, hbits'⟩ :=
    hpage.readBytes hbits (Page.idle_readBits _ _)
  exact ⟨out', hout.symm, howes, hbits', hidle, hasks⟩

/-- **A run gets on**: it writes bytes or reads some of the input, if the stream has not come to an
end and bytes wait only for a new page. -/
theorem run_progress (d : Decoder) {input : Bytes} (hinput : input ≠ [])
    (hrunning : d.phase.isFinal = false) (hidle : d.waiting = none → d.bits = [])
    (hasks : ∀ distance, d.waiting ≠ some (.copy 0 distance)) :
    (d.run input).written ≠ [] ∨ (d.run input).rest.length < input.length := by
  obtain ⟨b, bs, rfl⟩ := List.exists_cons_of_ne_nil hinput
  have hpos := room_page_pos d
  have hpage := d.fills_readBits
  rcases Page.readBytes_cons (d.page.settle.readBits d.bits).1 (d.page.settle.readBits d.bits).2 b bs
    with ⟨heq, hstop⟩ | hle
  · -- Nothing was read, so bytes were written before.
    left
    have hrun : (d.run (b :: bs)).written = (d.page.settle.readBits d.bits).1.written.reverse :=
      congrArg (fun r : Page × List Bool × Bytes => r.1.written.reverse) heq
    rw [hrun, ← List.length_pos_iff, List.length_reverse]
    by_cases hroom : (d.page.settle.readBits d.bits).1.room = 0
    · have hsize := hpage.size_eq
      rw [hroom, Nat.zero_add] at hsize
      rw [hsize]
      exact hpos
    · -- Nothing waits, so the stream has ended, with bytes that had to wait before.
      have hhalted := hstop.resolve_right hroom
      rw [Page.isHalted, Bool.or_eq_true] at hhalted
      have hfinal := hhalted.resolve_left fun hwaiting => hroom (hpage.full hwaiting)
      refine Nat.lt_of_lt_of_le ?_ (Page.length_written_le_readBits _ _)
      refine Page.length_written_lt_settle (Nat.ne_of_gt hpos) (fun hnone => ?_) hasks
      have hsettle : d.page.settle = d.page := by
        unfold Page.settle
        rw [hnone]
      rw [hidle hnone, hsettle] at hfinal
      exact Bool.false_ne_true (hrunning.symm.trans hfinal)
  · exact .inr (Nat.lt_succ_of_le hle)

end Decoder

end Switchyard.Deflate
