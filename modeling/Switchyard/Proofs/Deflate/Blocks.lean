import Switchyard.Proofs.Deflate.Phases

/-!
# Blocks and messages

Each kind of block leads from its header to what follows it (`Block.leads`), a series of blocks does so
by induction (`Blocks.leads`), and a message that is carried leads to its end (`Carries.leads`), if its
bits are followed by the bytes that were left out.
-/

namespace Switchyard.Deflate

/-! ### Bits and bytes -/

@[simp] theorem length_byteBits (b : UInt8) : (byteBits b).length = 8 := by
  simp [byteBits]

@[simp] theorem bitsOf_nil : bitsOf [] = [] := rfl

@[simp] theorem bitsOf_cons (b : UInt8) (bs : Bytes) :
    bitsOf (b :: bs) = byteBits b ++ bitsOf bs := rfl

@[simp] theorem bitsOf_append (xs ys : Bytes) : bitsOf (xs ++ ys) = bitsOf xs ++ bitsOf ys :=
  List.flatMap_append

theorem length_bitsOf (bs : Bytes) : (bitsOf bs).length = 8 * bs.length := by
  induction bs with
  | nil => rfl
  | cons b bs ih =>
    rw [bitsOf_cons, List.length_append, length_byteBits, ih, List.length_cons]
    omega

/-- Bits that do not fill a byte are dropped before the next one. -/
theorem fromNextByte_append {xs ys : List Bool} (hx : xs.length < 8) (hy : ys.length % 8 = 0) :
    fromNextByte (xs ++ ys) = ys := by
  have hlength : (xs ++ ys).length % 8 = xs.length := by
    rw [List.length_append]
    omega
  rw [fromNextByte, hlength, List.drop_left]

theorem fromNextByte_eq {bits : List Bool} (h : bits.length % 8 = 0) :
    fromNextByte bits = bits := by
  rw [fromNextByte, h]
  rfl

/-- At a byte, entering a phase drops no bits. -/
theorem Phase.enter_eq (p : Phase) {bits : List Bool} (h : bits.length % 8 = 0) :
    p.enter bits = bits := by
  rw [Phase.enter, fromNextByte_eq h]
  exact ite_self bits

section Block

variable {final history out out' : Bytes} {last : Bool} {bits rest more : List Bool}

/-! ### Codes that come along -/

theorem triples_flatMap {described : List Nat} (h : ∀ l ∈ described, l < 8) :
    Phase.triples (described.flatMap (numberBits 3)) = described := by
  induction described with
  | nil => rfl
  | cons l described ih =>
    have hl : fieldValue (numberBits 3 l).reverse = l :=
      fieldValue_numberBits (h l List.mem_cons_self)
    have hrest := ih fun k hk => h k (List.mem_cons_of_mem l hk)
    show fieldValue (numberBits 3 l).reverse :: Phase.triples (described.flatMap (numberBits 3)) = _
    rw [hl, hrest]

theorem length_triples (described : List Nat) :
    (described.flatMap (numberBits 3)).length = 3 * described.length := by
  induction described with
  | nil => rfl
  | cons l described ih =>
    rw [List.flatMap_cons, List.length_append, length_numberBits, ih, List.length_cons]
    omega

/-- The sizes of a description make up one field. -/
theorem ofValue_counts {l d n : Nat} (hl : 257 ≤ l ∧ l ≤ 286) (hd : 1 ≤ d ∧ d ≤ 30)
    (hn : 4 ≤ n ∧ n ≤ 19) :
    Counts.ofValue (fieldValue (numberBits 5 (l - 257) ++ numberBits 5 (d - 1) ++
      numberBits 4 (n - 4)).reverse) = ⟨l, d, n⟩ := by
  rw [List.reverse_append, List.reverse_append, fieldValue_append, fieldValue_append,
    fieldValue_numberBits (by omega), fieldValue_numberBits (by omega),
    fieldValue_numberBits (by omega)]
  simp only [Counts.ofValue, List.length_append, List.length_reverse, length_numberBits,
    Counts.mk.injEq]
  omega

theorem reads_counts (last : Bool) {l d n : Nat} (hl : 257 ≤ l ∧ l ≤ 286) (hd : 1 ≤ d ∧ d ≤ 30)
    (hn : 4 ≤ n ∧ n ≤ 19) :
    Reads (.counts last [])
      (numberBits 5 (l - 257) ++ numberBits 5 (d - 1) ++ numberBits 4 (n - 4))
      (.lengthCode last ⟨l, d, n⟩ []) none := by
  have hlegal : Counts.isLegal ⟨l, d, n⟩ = true := by
    simp [Counts.isLegal, hl.2, hd.2]
  have hfield := reads_field 14 (.counts last)
    (fun g => (if (Counts.ofValue (fieldValue g)).isLegal then
      .lengthCode last (Counts.ofValue (fieldValue g)) [] else .failed, none))
    (fun _ => rfl) (fun _ _ => rfl)
    (fun g b => by
      rw [Phase.step]
      dsimp only
      split
      · rfl
      · split <;> rfl)
    (show (numberBits 5 (l - 257) ++ numberBits 5 (d - 1) ++ numberBits 4 (n - 4)).length = 14
      by simp)
    (by decide)
  rwa [ofValue_counts hl hd hn, if_pos hlegal] at hfield

theorem reads_lengthCode (last : Bool) (c : Counts) {described : List Nat}
    (hc : c.lengths = described.length) (hpos : 0 < described.length)
    (hthree : ∀ l ∈ described, l < 8) (hcode : IsFull (lengthsInOrder described)) :
    Reads (.lengthCode last c []) (described.flatMap (numberBits 3))
      (.lengths last c (.ofLengths (lengthsInOrder described)) []
        (.ofLengths (lengthsInOrder described))) none := by
  have hfield := reads_field (3 * c.lengths) (.lengthCode last c)
    (fun g => (.afterLengthCode last c (Phase.triples g.reverse), none))
    (fun _ => rfl) (fun _ _ => rfl) (fun _ _ => rfl)
    (show (described.flatMap (numberBits 3)).length = 3 * c.lengths by rw [length_triples, hc])
    (by omega)
  rw [List.reverse_reverse, triples_flatMap hthree, Phase.afterLengthCode,
    completeTree?_eq hcode] at hfield
  exact hfield

theorem Description.leads {literals distances : List Nat}
    (h : Description literals distances rest bits)
    (h' : Leads final (.elements last ⟨.ofLengths literals, .ofLengths distances⟩) none history
      (rest ++ more) out) :
    Leads final (.counts last []) none history (bits ++ more) out := by
  obtain @⟨described, bits, hliterals, hdistances, hdescribed, hthree, hcode, hall, hl, hd⟩ := h
  -- With all lengths read, the phase is the first one of the data.
  have hafter : Phase.afterLengths last ⟨literals.length, distances.length, described.length⟩
      (.ofLengths (lengthsInOrder described)) (literals ++ distances).reverse =
        .elements last ⟨.ofLengths literals, .ofLengths distances⟩ := by
    simp only [Phase.afterLengths, List.length_reverse, List.length_append, Nat.lt_irrefl, if_false,
      if_true, List.reverse_reverse, List.take_left', List.drop_left', codes_ofLengths?_eq hl hd]
  have hlengths := hall.leads ⟨literals.length, distances.length, described.length⟩ hcode
    List.length_append (hafter ▸ h')
  rw [List.append_assoc, List.append_assoc]
  refine (reads_counts last hliterals hdistances hdescribed).leads ?_
  refine (reads_lengthCode last _ rfl (by omega) hthree hcode).leads ?_
  rw [Phase.afterLengths, if_pos] at hlengths
  · exact hlengths
  · simp only [List.reverse_nil, List.length_nil]
    omega

/-! ### Blocks -/

theorem reads_header (last : Bool) {kind : Nat} (hkind : kind < 4) :
    Reads .start ([last] ++ numberBits 2 kind) (.afterHeader last kind) none := by
  have hfield := reads_field 3 .header
    (fun g => (.afterHeader (fieldValue g % 2 == 1) (fieldValue g / 2), none)) (fun _ => rfl)
    (fun _ _ => rfl) (fun _ _ => rfl)
    (show ([last] ++ numberBits 2 kind).length = 3 by simp) (by decide)
  have hvalue : fieldValue ([last] ++ numberBits 2 kind).reverse = 2 * kind + last.toNat := by
    rw [List.reverse_append, List.reverse_singleton, fieldValue_append,
      fieldValue_numberBits hkind, fieldValue_singleton, List.length_singleton]
    omega
  have hlast : ((2 * kind + last.toNat) % 2 == 1) = last := by
    cases last <;> simp
  have hkind' : (2 * kind + last.toNat) / 2 = kind := by
    have hle := last.toNat_le
    omega
  rwa [hvalue, hlast, hkind'] at hfield

theorem reads_storedLengths (last : Bool) {n : Nat} (hn : n < 65536) :
    Reads (.storedLengths last []) (numberBits 16 n ++ numberBits 16 (65535 - n))
      (if n = 0 then .afterBlock last else .stored last n) none := by
  have hfield := reads_field 32 (.storedLengths last)
    (fun g => (.afterStoredLengths last (fieldValue g), none)) (fun _ => rfl)
    (fun _ _ => rfl) (fun _ _ => rfl)
    (show (numberBits 16 n ++ numberBits 16 (65535 - n)).length = 32 by simp) (by decide)
  have hvalue : fieldValue (numberBits 16 n ++ numberBits 16 (65535 - n)).reverse =
      (65535 - n) * 65536 + n := by
    have hpow : 2 ^ 16 = 65536 := by decide
    rw [List.reverse_append, fieldValue_append, fieldValue_numberBits (by omega),
      fieldValue_numberBits (by omega), List.length_reverse, length_numberBits, hpow]
  have hlength : ((65535 - n) * 65536 + n) % 65536 = n := by omega
  have hcomplement : ((65535 - n) * 65536 + n) / 65536 = 65535 - n := by omega
  rw [hvalue, Phase.afterStoredLengths, hlength, hcomplement, if_neg (not_not_intro rfl)] at hfield
  exact hfield

/-- The bytes of a stored block. -/
theorem leads_stored {bs : Bytes} (hbs : bs ≠ [])
    (h : Leads final (.afterBlock last) none (history ++ bs) bits out) :
    Leads final (.stored last bs.length) none history (bitsOf bs ++ bits) (bs ++ out) := by
  induction bs generalizing history with
  | nil => exact absurd rfl hbs
  | cons b bs ih =>
    rw [bitsOf_cons, List.append_assoc]
    refine .byte ?_
    rw [List.append_cons] at h
    cases bs with
    | nil =>
      rw [List.append_nil] at h
      exact h
    | cons c bs => exact ih (List.cons_ne_nil c bs) h

theorem Block.leads (hmore : more.length % 8 = 0) (h : Block last history rest bits out)
    (h' : Leads final (.afterBlock last) none (history ++ out)
      ((Phase.afterBlock last).enter (rest ++ more)) out') :
    Leads final .start none history (bits ++ more) (out ++ out') := by
  cases h with
  | @stored padding bs hpadding hrest hbs =>
    -- Behind the header the bits go on at a byte, and from there on they are whole bytes.
    have hbehind : (rest ++ more).length % 8 = 0 := by
      rw [List.length_append]
      omega
    have hlengths : (numberBits 16 out.length ++ (numberBits 16 (65535 - out.length) ++
        (bitsOf out ++ (rest ++ more)))).length % 8 = 0 := by
      simp only [List.length_append, length_numberBits, length_bitsOf]
      rw [List.length_append] at hbehind
      omega
    rw [Phase.enter_eq _ hbehind] at h'
    simp only [List.append_assoc]
    refine (reads_header last (by decide)).leads ?_
    show Leads final (.storedLengths last []) none history (fromNextByte _) _
    rw [fromNextByte_append hpadding hlengths, ← List.append_assoc]
    refine (reads_storedLengths last hbs).leads ?_
    by_cases hnil : out = []
    · rw [hnil, List.append_nil] at h'
      rw [if_pos (by rw [hnil]; rfl), hnil, Phase.enter_eq _ (by simpa using hbehind)]
      exact h'
    · rw [if_neg (fun h0 => hnil (List.length_eq_zero_iff.1 h0))]
      rw [Phase.enter_eq _ (by rw [List.length_append, length_bitsOf]; omega)]
      exact leads_stored hnil h'
  | fixed h =>
    rw [List.append_assoc]
    refine (reads_header last (by decide)).leads ?_
    exact h.leads (.inl isFull_fixedLiterals) (.inl isFull_fixedDistances) h'
  | dynamic hcodes h =>
    rw [List.append_assoc]
    refine (reads_header last (by decide)).leads ?_
    obtain @⟨_, _, _, _, _, _, _, _, hl, hd⟩ := id hcodes
    exact hcodes.leads (h.leads hl hd h')

theorem Blocks.leads {history' outs : Bytes} (hmore : more.length % 8 = 0)
    (h : Blocks rest history' history bits outs)
    (h' : Leads final .start none history' (rest ++ more) out') :
    Leads final .start none history (bits ++ more) (outs ++ out') := by
  induction h with
  | done => exact h'
  | block hb _ ih =>
    rw [List.append_assoc]
    exact hb.leads hmore ih
  | @final history out outs bits padding bits' hb hpadding hbits _ ih =>
    -- The stream ends here, and a new one begins at the next byte.
    rw [List.append_assoc]
    refine hb.leads hmore ?_
    show Leads final .ended none _ (fromNextByte _) _
    rw [List.append_assoc, fromNextByte_append hpadding (by rw [List.length_append]; omega)]
    exact .restart ih

/-! ### Messages -/

/-- A message leads to its end, with the bytes that were left out behind its payload. -/
theorem Carries.leads {payload message history' : Bytes}
    (h : Carries history payload message history') :
    Leads history' .start none history (bitsOf payload ++ bitsOf Inflater.tail) message := by
  obtain ⟨padding, hpadding, hblocks⟩ := h
  have htail : (bitsOf Inflater.tail).length % 8 = 0 := by
    rw [length_bitsOf]
    omega
  rw [← List.append_nil message]
  refine hblocks.leads htail ?_
  -- The header of the block that ends the message is in the payload, its lengths are what was left out.
  rw [List.append_assoc]
  refine (reads_header false (by decide)).leads ?_
  show Leads history' (.storedLengths false []) none history' (fromNextByte _) []
  rw [fromNextByte_append hpadding htail]
  exact .flush rfl (by decide)

end Block

/-! ### What is left to read -/

/-- How many bits of the lengths of a stored block have been read. -/
def Phase.lengthBits : Phase → Nat
  | .storedLengths _ gathered => gathered.length
  | _ => 0

@[simp] theorem Phase.lengthBits_afterBlock (last : Bool) :
    (Phase.afterBlock last).lengthBits = 0 := by
  cases last <;> rfl

@[simp] theorem Phase.lengthBits_afterLengths (last : Bool) (c : Counts) (code : CodeTree)
    (done : List Nat) : (Phase.afterLengths last c code done).lengthBits = 0 := by
  unfold Phase.afterLengths
  split
  · rfl
  · split
    · dsimp only
      split <;> rfl
    · rfl

@[simp] theorem Phase.lengthBits_afterRun (last : Bool) (c : Counts) (code : CodeTree)
    (done : List Nat) (run : LengthRun) : (Phase.afterRun last c code done run).lengthBits = 0 := by
  unfold Phase.afterRun
  split
  · exact Phase.lengthBits_afterLengths last c code _
  · rfl
  · split <;> rfl

/-- A bit is at most one of these bits. -/
theorem Phase.lengthBits_step_le (p : Phase) (b : Bool) :
    (p.step b).1.lengthBits ≤ p.lengthBits + 1 := by
  cases p with
  | header g =>
    rw [Phase.step, Phase.afterHeader]
    repeat' split
    all_goals exact Nat.zero_le _
  | storedLengths last g =>
    rw [Phase.step, Phase.afterStoredLengths]
    repeat' split
    all_goals first
      | exact Nat.le_refl _
      | exact Nat.zero_le _
      | rw [Phase.lengthBits_afterBlock]; exact Nat.zero_le _
  | counts last g =>
    rw [Phase.step]
    split
    · exact Nat.zero_le _
    · dsimp only
      split <;> exact Nat.zero_le _
  | lengthCode last c g =>
    rw [Phase.step, Phase.afterLengthCode]
    split
    · exact Nat.zero_le _
    · dsimp only
      split <;> exact Nat.zero_le _
  | _ =>
    rw [Phase.step]
    repeat' split
    all_goals first
      | exact Nat.zero_le _
      | simp only [Phase.lengthBits_afterBlock, Phase.lengthBits_afterLengths,
          Phase.lengthBits_afterRun, Nat.zero_le]

namespace Leads

variable {final history out : Bytes} {p : Phase} {e : Option Emission} {bits : List Bool}

theorem bits_ne_nil (h : Leads final p e history bits out) : bits ≠ [] := by
  induction h with
  | flush _ hne => exact hne
  | literal _ ih => exact ih
  | copied _ ih => exact ih
  | copy _ _ _ _ _ ih => exact ih
  | bit => exact List.cons_ne_nil _ _
  | byte =>
    intro hnil
    have hlength := congrArg List.length hnil
    rw [List.length_append, length_byteBits, List.length_nil] at hlength
    omega
  | restart _ ih => exact ih

theorem ne_failed (h : Leads final p e history bits out) : p ≠ .failed := by
  rintro rfl
  cases h with
  | bit hp => cases hp

theorem of_ended (h : Leads final .ended e history bits out) :
    e = none ∧ Leads final .start none [] bits out := by
  cases h with
  | bit hp => cases hp
  | restart h => exact ⟨rfl, h⟩

/-- The lengths of the block that ends the message are still to be read. -/
theorem le_length_bits (h : Leads final p e history bits out) :
    32 ≤ bits.length + p.lengthBits := by
  induction h with
  | flush hbits =>
    have hlength := congrArg List.length hbits
    rw [List.length_append, List.length_reverse, length_bitsOf] at hlength
    rw [Phase.lengthBits]
    exact Nat.le_of_eq (by rw [Nat.add_comm, hlength]; rfl)
  | literal _ ih => exact ih
  | copied _ ih => exact ih
  | copy _ _ _ _ _ ih => exact ih
  | @bit p p' e b history out bits hp hstep _ ih =>
    -- A bit is lost, or counted as one of the lengths.
    have hle : (p'.enter bits).length ≤ bits.length := by
      rw [Phase.enter]
      split
      · rw [fromNextByte, List.length_drop]
        exact Nat.sub_le _ _
      · exact Nat.le_refl _
    have hbit := Phase.lengthBits_step_le p b
    rw [hstep] at hbit
    rw [List.length_cons]
    dsimp only at hbit
    omega
  | @byte last count b history out bits _ ih =>
    have hnone : (Phase.afterStored last count).lengthBits = 0 := by
      unfold Phase.afterStored
      split
      · exact Phase.lengthBits_afterBlock last
      · rfl
    rw [hnone] at ih
    rw [List.length_append]
    exact Nat.le_add_right_of_le (by omega)
  | restart _ ih => exact ih

/-- Bytes that wait are those of an element, and the end of the message is behind them. -/
theorem of_waiting {w : Emission} (h : Leads final p (some w) history bits out) :
    p.startsByte = false ∧ 32 ≤ bits.length := by
  have hbits := h.le_length_bits
  cases h with
  | literal => exact ⟨rfl, hbits⟩
  | copied => exact ⟨rfl, hbits⟩
  | copy => exact ⟨rfl, hbits⟩

end Leads

end Switchyard.Deflate
