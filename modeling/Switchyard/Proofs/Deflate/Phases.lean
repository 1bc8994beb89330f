import Switchyard.Proofs.Deflate.CanonicalCode

/-!
# What phases make of valid data

`Leads` is the decoder without its pages: the phases that the bits of a message lead through, the bytes
they give on the way, and the history that is left in the end. `Reads` is a stretch of it, the bits of
one field or code. Every symbol of the grammar leads on (`Elements.leads`, `Block.leads`,
`Blocks.leads`), so a message that is carried leads to its end (`Carries.leads`).
-/

namespace Switchyard.Deflate

/-! ### Numbers -/

theorem foldl_value (ys : Gathered) (n : Nat) :
    ys.foldl (fun n b => 2 * n + b.toNat) n = n * 2 ^ ys.length + fieldValue ys := by
  induction ys generalizing n with
  | nil => simp [fieldValue]
  | cons y ys ih =>
    have hvalue : fieldValue (y :: ys) = y.toNat * 2 ^ ys.length + fieldValue ys := by
      rw [fieldValue, List.foldl_cons, ih, Nat.mul_zero, Nat.zero_add]
    rw [List.foldl_cons, ih, hvalue, List.length_cons, Nat.pow_succ]
    grind

theorem fieldValue_append (xs ys : Gathered) :
    fieldValue (xs ++ ys) = fieldValue xs * 2 ^ ys.length + fieldValue ys := by
  rw [fieldValue, List.foldl_append]
  exact foldl_value ys _

theorem fieldValue_singleton (b : Bool) : fieldValue [b] = b.toNat :=
  Nat.zero_add _

theorem fieldValue_lt (bits : Gathered) : fieldValue bits < 2 ^ bits.length := by
  induction bits with
  | nil => exact Nat.one_pos
  | cons b bits ih =>
    have hb := Bool.toNat_le b
    have hle := Nat.mul_le_mul_right (2 ^ bits.length) hb
    rw [← List.singleton_append, fieldValue_append, fieldValue_singleton, List.length_append,
      List.length_singleton, Nat.add_comm 1, Nat.pow_succ]
    omega

/-- The gathered bits of a number write its lowest bits. -/
theorem fieldValue_numberBits_eq_mod (k n : Nat) :
    fieldValue (numberBits k n).reverse = n % 2 ^ k := by
  induction k with
  | zero => rw [Nat.pow_zero, Nat.mod_one]; rfl
  | succ k ih =>
    rw [numberBits_concat, List.reverse_append, List.reverse_singleton, fieldValue_append, ih,
      Nat.mod_pow_succ, List.length_reverse, length_numberBits, fieldValue_singleton,
      Nat.toNat_testBit, Nat.mul_comm, Nat.add_comm]

theorem fieldValue_numberBits {k n : Nat} (h : n < 2 ^ k) :
    fieldValue (numberBits k n).reverse = n := by
  rw [fieldValue_numberBits_eq_mod, Nat.mod_eq_of_lt h]

/-! ### Phases -/

/-- The phase goes on with a bit. -/
def Phase.takesBits : Phase → Bool
  | .stored .. | .ended | .failed => false
  | _ => true

/-- The bits from the next whole byte on. -/
def fromNextByte (bits : List Bool) : List Bool :=
  bits.drop (bits.length % 8)

/-- The bits that a phase finds when it is entered. -/
def Phase.enter (p : Phase) (bits : List Bool) : List Bool :=
  if p.startsByte then fromNextByte bits else bits

/-- A phase, the bytes that wait, and the bits from there on lead to the end of a message: they give
`out` after `history` and leave `final` behind. The end is reached in the lengths of the block that
ends the message; these are the bytes that were left out. -/
inductive Leads (final : Bytes) :
    Phase → Option Emission → Bytes → List Bool → Bytes → Prop where
  | flush {gathered : Gathered} {bits : List Bool}
      (hbits : gathered.reverse ++ bits = bitsOf Inflater.tail) (hne : bits ≠ []) :
      Leads final (.storedLengths false gathered) none final bits []
  | literal {last : Bool} {codes : Codes} {b : UInt8} {history out : Bytes} {bits : List Bool}
      (h : Leads final (.elements last codes) none (history ++ [b]) bits out) :
      Leads final (.elements last codes) (some (.literal b)) history bits (b :: out)
  | copied {last : Bool} {codes : Codes} {distance : Nat} {history out : Bytes} {bits : List Bool}
      (h : Leads final (.elements last codes) none history bits out) :
      Leads final (.elements last codes) (some (.copy 0 distance)) history bits out
  | copy {last : Bool} {codes : Codes} {n distance : Nat} {b : UInt8} {history out : Bytes}
      {bits : List Bool} (hpos : 1 ≤ distance) (hback : distance ≤ history.length)
      (hfar : distance ≤ pageSize) (hb : history.getD (history.length - distance) 0 = b)
      (h : Leads final (.elements last codes) (some (.copy n distance)) (history ++ [b]) bits out) :
      Leads final (.elements last codes) (some (.copy (n + 1) distance)) history bits (b :: out)
  | bit {p p' : Phase} {e : Option Emission} {bit : Bool} {history out : Bytes} {bits : List Bool}
      (hp : p.takesBits = true) (hstep : p.step bit = (p', e))
      (h : Leads final p' e history (p'.enter bits) out) :
      Leads final p none history (bit :: bits) out
  | byte {last : Bool} {count : Nat} {b : UInt8} {history out : Bytes} {bits : List Bool}
      (h : Leads final (.afterStored last count) none (history ++ [b]) bits out) :
      Leads final (.stored last count) none history (byteBits b ++ bits) (b :: out)
  | restart {history out : Bytes} {bits : List Bool} (h : Leads final .start none [] bits out) :
      Leads final .ended none history bits out

/-- The bits of a field or a code: they give no bytes before the last of them. -/
inductive Reads : Phase → List Bool → Phase → Option Emission → Prop where
  | last {p p' : Phase} {e : Option Emission} {bit : Bool} (hp : p.takesBits = true)
      (hstep : p.step bit = (p', e)) : Reads p [bit] p' e
  | more {p q p' : Phase} {e : Option Emission} {bit : Bool} {bits : List Bool}
      (hp : p.takesBits = true) (hstep : p.step bit = (q, none)) (hq : q.startsByte = false)
      (h : Reads q bits p' e) : Reads p (bit :: bits) p' e

theorem Reads.leads {p p' : Phase} {e : Option Emission} {bits more : List Bool}
    {final history out : Bytes} (h : Reads p bits p' e)
    (h' : Leads final p' e history (p'.enter more) out) :
    Leads final p none history (bits ++ more) out := by
  induction h with
  | last hp hstep => exact .bit hp hstep h'
  | more hp hstep hq _ ih =>
    refine .bit hp hstep ?_
    rw [Phase.enter, hq]
    exact ih h'

/-- A field of a fixed number of bits. -/
theorem reads_field (k : Nat) (phase : Gathered → Phase)
    (after : Gathered → Phase × Option Emission)
    (hphase : ∀ g, (phase g).takesBits = true)
    (hstarts : ∀ b g, (phase (b :: g)).startsByte = false)
    (hstep : ∀ g b, (phase g).step b =
      if (b :: g).length < k then (phase (b :: g), none) else after (b :: g))
    {bits : List Bool} (hlength : bits.length = k) (hpos : 0 < k) :
    Reads (phase []) bits (after bits.reverse).1 (after bits.reverse).2 := by
  -- From the middle of the field on, where some bits are gathered already.
  have key : ∀ (bits : List Bool) (g : Gathered), bits ≠ [] → g.length + bits.length = k →
      Reads (phase g) bits (after (bits.reverse ++ g)).1 (after (bits.reverse ++ g)).2 := by
    intro bits
    induction bits with
    | nil => exact fun g hne => absurd rfl hne
    | cons b bits ih =>
      intro g _ hl
      have hs := hstep g b
      rw [List.length_cons] at hl hs
      cases bits with
      | nil =>
        rw [if_neg (by rw [List.length_nil] at hl; omega)] at hs
        exact .last (hphase g) hs
      | cons c bits =>
        rw [if_pos (by rw [List.length_cons] at hl; omega)] at hs
        have hmore := ih (b :: g) nofun (by rw [List.length_cons]; omega)
        rw [List.reverse_cons, List.append_assoc]
        exact .more (hphase g) hs (hstarts b g) hmore
  have h := key bits [] (fun hnil => by rw [hnil] at hlength; exact absurd hlength (by simp; omega))
    (by rw [List.length_nil, Nat.zero_add, hlength])
  rwa [List.append_nil] at h

section Code

variable (phase : CodeTree → Phase) (after : Nat → Phase × Option Emission) {s : Nat}

/-- A bit of a code. Below a node the walk either ends in a leaf or goes on in another node. -/
theorem reads_child (hphase : ∀ t, (phase t).takesBits = true)
    (hstarts : ∀ t, (phase t).startsByte = false)
    (hstep : ∀ t b, (phase t).step b =
      match t.child b with
      | .empty => (.failed, none)
      | .leaf s => after s
      | inner => (phase inner, none))
    {t u : CodeTree} {b : Bool} {bits : List Bool} (hchild : t.child b = u) (hu : u.Path bits s)
    (hrest : bits ≠ [] → Reads (phase u) bits (after s).1 (after s).2) :
    Reads (phase t) (b :: bits) (after s).1 (after s).2 := by
  have hs := hstep t b
  rw [hchild] at hs
  cases hu with
  | leaf => exact .last (hphase t) hs
  | zero hu => exact .more (hphase t) hs (hstarts _) (hrest nofun)
  | one hu => exact .more (hphase t) hs (hstarts _) (hrest nofun)

/-- A code: the walk from a place in a tree to a leaf. -/
theorem reads_code (hphase : ∀ t, (phase t).takesBits = true)
    (hstarts : ∀ t, (phase t).startsByte = false)
    (hstep : ∀ t b, (phase t).step b =
      match t.child b with
      | .empty => (.failed, none)
      | .leaf s => after s
      | inner => (phase inner, none))
    {t : CodeTree} {bits : List Bool} (hne : bits ≠ []) (h : t.Path bits s) :
    Reads (phase t) bits (after s).1 (after s).2 := by
  induction h with
  | leaf => exact absurd rfl hne
  | zero h ih => exact reads_child phase after hphase hstarts hstep rfl h ih
  | one h ih => exact reads_child phase after hphase hstarts hstep rfl h ih

end Code

/-! ### The data of a block -/

theorem HasCode.ne_nil {lengths : List Nat} {s : Nat} {c : List Bool} (h : HasCode lengths s c) :
    c ≠ [] := by
  obtain ⟨l, -, hl, rfl⟩ := h
  refine List.length_pos_iff.1 ?_
  rw [length_codeBits]
  exact Nat.pos_of_ne_zero hl

/-- What an element leads to. -/
def afterElement (last : Bool) (codes : Codes) : Element → Phase × Option Emission
  | .literal b => (.elements last codes, some (.literal b))
  | .endOfBlock => (.afterBlock last, none)
  | .copy length =>
    if length.extraBits = 0 then (.afterLength last codes length.base, none)
    else (.copyLength last codes length [], none)

theorem reads_element (last : Bool) {codes : Codes} {s : Nat} {c : List Bool} {e : Element}
    (hne : c ≠ []) (hpath : codes.literals.Path c s) (he : Element.ofSymbol? s = some e) :
    Reads (.elements last codes) c (afterElement last codes e).1 (afterElement last codes e).2 := by
  have h := reads_code (.element last codes)
    (fun s => (Element.ofSymbol? s).elim (.failed, none) (afterElement last codes))
    (fun _ => rfl) (fun _ => rfl) ?_ hne hpath
  · rwa [he] at h
  · intro t b
    rw [Phase.step]
    cases t.child b with
    | empty => rfl
    | node _ _ => rfl
    | leaf s =>
      dsimp only
      rcases Element.ofSymbol? s with _ | (b | _ | length) <;> rfl

theorem reads_distance (last : Bool) {codes : Codes} (length : Nat) {s : Nat} {c : List Bool}
    {d : Based} (hne : c ≠ []) (hpath : codes.distances.Path c s)
    (hd : copyDistances[s]? = some d) :
    Reads (.afterLength last codes length) c
      (if d.extraBits = 0 then .elements last codes else .copyDistance last codes length d [])
      (if d.extraBits = 0 then some (.copy length d.base) else none) := by
  have h := reads_code (.distance last codes length)
    (fun s => (copyDistances[s]?).elim (.failed, none) fun d =>
      (if d.extraBits = 0 then .elements last codes else .copyDistance last codes length d [],
        if d.extraBits = 0 then some (.copy length d.base) else none))
    (fun _ => rfl) (fun _ => rfl) ?_ hne hpath
  · rwa [hd] at h
  · intro t b
    rw [Phase.step]
    cases t.child b with
    | empty => rfl
    | node _ _ => rfl
    | leaf s =>
      dsimp only
      cases copyDistances[s]? with
      | none => rfl
      | some d =>
        dsimp only [Option.elim_some]
        split <;> rfl

section Data

variable {final history out : Bytes} {last : Bool} {codes : Codes} {bits c : List Bool}

/-- The length of a copy, with its extra bits. -/
theorem leads_length {i x : Nat} {length : Based} (hne : c ≠ [])
    (hpath : codes.literals.Path c (257 + i)) (hi : copyLengths[i]? = some length)
    (hx : x < 2 ^ length.extraBits)
    (h : Leads final (.afterLength last codes (length.base + x)) none history bits out) :
    Leads final (.elements last codes) none history (c ++ (numberBits length.extraBits x ++ bits))
      out := by
  have he : Element.ofSymbol? (257 + i) = some (.copy length) := by
    rw [Element.ofSymbol?, if_neg (by omega), if_neg (by omega), Nat.add_sub_cancel_left, hi]
    rfl
  have hreads := reads_element last hne hpath he
  refine hreads.leads ?_
  rw [afterElement]
  by_cases hextra : length.extraBits = 0
  · rw [hextra] at hx
    obtain rfl : x = 0 := Nat.lt_one_iff.1 hx
    rw [if_pos hextra, hextra]
    exact h
  · rw [if_neg hextra]
    have hfield := reads_field length.extraBits (.copyLength last codes length)
      (fun g => (.afterLength last codes (length.base + fieldValue g), none)) (fun _ => rfl)
      (fun _ _ => rfl) (fun _ _ => rfl) (length_numberBits _ x) (Nat.pos_of_ne_zero hextra)
    rw [fieldValue_numberBits hx] at hfield
    exact hfield.leads h

/-- The distance of a copy, with its extra bits. -/
theorem leads_distance {n j y : Nat} {d : Based} (hne : c ≠ []) (hpath : codes.distances.Path c j)
    (hj : copyDistances[j]? = some d) (hy : y < 2 ^ d.extraBits)
    (h : Leads final (.elements last codes) (some (.copy n (d.base + y))) history bits out) :
    Leads final (.afterLength last codes n) none history (c ++ (numberBits d.extraBits y ++ bits))
      out := by
  have hreads := reads_distance last n hne hpath hj
  refine hreads.leads ?_
  by_cases hextra : d.extraBits = 0
  · rw [hextra] at hy
    obtain rfl : y = 0 := Nat.lt_one_iff.1 hy
    rw [if_pos hextra, if_pos hextra, hextra]
    exact h
  · rw [if_neg hextra, if_neg hextra]
    have hfield := reads_field d.extraBits (.copyDistance last codes n d)
      (fun g => (.elements last codes, some (.copy n (d.base + fieldValue g)))) (fun _ => rfl)
      (fun _ _ => rfl) (fun _ _ => rfl) (length_numberBits _ y) (Nat.pos_of_ne_zero hextra)
    rw [fieldValue_numberBits hy] at hfield
    exact hfield.leads h

/-- No distance is zero or more than a page. -/
theorem copyDistances_bounds {j y : Nat} {d : Based} (hj : copyDistances[j]? = some d)
    (hy : y < 2 ^ d.extraBits) : 1 ≤ d.base + y ∧ d.base + y ≤ pageSize := by
  have hall : ∀ d ∈ copyDistances, 1 ≤ d.base ∧ d.base + 2 ^ d.extraBits ≤ pageSize + 1 := by decide
  obtain ⟨hpos, hle⟩ := hall d (List.mem_of_getElem? hj)
  omega

/-- The bytes of a copy, one by one. -/
theorem leads_copy {n distance : Nat} (hpos : 1 ≤ distance) (hback : distance ≤ history.length)
    (hfar : distance ≤ pageSize)
    (h : Leads final (.elements last codes) none (history ++ copied history distance n) bits out) :
    Leads final (.elements last codes) (some (.copy n distance)) history bits
      (copied history distance n ++ out) := by
  induction n generalizing history with
  | zero =>
    rw [copied, List.append_nil] at h
    exact .copied h
  | succ n ih =>
    rw [copied, List.append_cons] at h
    refine .copy hpos hback hfar rfl (ih ?_ h)
    rw [List.length_append]
    exact Nat.le_add_right_of_le hback

theorem Elements.leads {literals distances : List Nat} {rest more : List Bool} {out' : Bytes}
    (hl : IsUsable literals) (hd : IsUsable distances)
    (h : Elements literals distances rest history bits out)
    (h' : Leads final (.afterBlock last) none (history ++ out)
      ((Phase.afterBlock last).enter (rest ++ more)) out') :
    Leads final (.elements last ⟨.ofLengths literals, .ofLengths distances⟩) none history
      (bits ++ more) (out ++ out') := by
  induction h with
  | endOfBlock hc =>
    have he : Element.ofSymbol? 256 = some .endOfBlock := rfl
    rw [List.append_nil] at h'
    rw [List.append_assoc]
    exact (reads_element last hc.ne_nil (hl.path hc) he).leads h'
  | @literal history out b c bits hc _ ih =>
    rw [List.append_cons] at h'
    have he : Element.ofSymbol? b.toNat = some (.literal b) := by
      rw [Element.ofSymbol?, if_pos b.toNat_lt, UInt8.ofNat_toNat]
    rw [List.append_assoc]
    exact (reads_element last hc.ne_nil (hl.path hc) he).leads (.literal (ih h'))
  | copy hc hi hx hc' hj hy hback _ ih =>
    rw [← List.append_assoc] at h'
    obtain ⟨hpos, hfar⟩ := copyDistances_bounds hj hy
    have hcopy := leads_copy hpos hback hfar (ih h')
    rw [List.append_assoc, List.append_assoc, List.append_assoc, List.append_assoc,
      List.append_assoc]
    exact leads_length hc.ne_nil (hl.path hc) hi hx
      (leads_distance hc'.ne_nil (hd.path hc') hj hy hcopy)

end Data

/-! ### The codes of a block -/

section Codes

variable {final history out : Bytes} {last : Bool} {bits more : List Bool}

/-- Reading on only adds lengths. -/
theorem Lengths.length_le {code all done : List Nat} {rest : List Bool}
    (h : Lengths code rest all done bits) : done.length ≤ all.length := by
  induction h with
  | done => exact Nat.le_refl _
  | one _ _ _ ih | again _ _ _ ih | zeros _ _ _ ih | manyZeros _ _ _ ih =>
    rw [List.length_append] at ih
    exact Nat.le_of_add_right_le ih

theorem enter_afterLengths (c : Counts) (code : CodeTree) (done : List Nat) (bits : List Bool) :
    (Phase.afterLengths last c code done).enter bits = bits := by
  have hstarts : (Phase.afterLengths last c code done).startsByte = false := by
    unfold Phase.afterLengths
    split
    · rfl
    · split
      · dsimp only
        split <;> rfl
      · rfl
  rw [Phase.enter, hstarts]
  rfl

/-- What a symbol for lengths leads to. -/
theorem reads_run (last : Bool) (c : Counts) (code : CodeTree) (done : List Nat) {s : Nat}
    {bits : List Bool} (hne : bits ≠ []) (hpath : code.Path bits s) :
    Reads (.lengths last c code done code) bits (.afterRun last c code done (.ofSymbol s)) none :=
  reads_code (.lengths last c code done) (fun s => (.afterRun last c code done (.ofSymbol s), none))
    (fun _ => rfl) (fun _ => rfl)
    (fun t b => by cases hchild : t.child b <;> rw [Phase.step, hchild]) hne hpath

/-- As long as lengths are missing, the phase is the one that reads a symbol. -/
theorem afterLengths_of_lt {c : Counts} {done : List Nat} (last : Bool) (code : CodeTree)
    (h : done.length < c.literals + c.distances) :
    Phase.afterLengths last c code done.reverse = .lengths last c code done.reverse code := by
  rw [Phase.afterLengths, if_pos (by rw [List.length_reverse]; exact h)]

/-- A symbol that repeats a length, with the extra bits that tell how often. -/
theorem leads_repeated {code done : List Nat} {c : Counts} {s length x : Nat} {times : Based}
    {symbol : List Bool} (hmissing : done.length < c.literals + c.distances) (hcode : IsFull code)
    (hs : HasCode code s symbol)
    (hrun : Phase.afterRun last c (.ofLengths code) done.reverse (.ofSymbol s) =
      .lengthRun last c (.ofLengths code) done.reverse length times [])
    (hextra : 0 < times.extraBits) (hx : x < 2 ^ times.extraBits)
    (h : Leads final (.afterLengths last c (.ofLengths code)
      (done ++ List.replicate (times.base + x) length).reverse) none history bits out) :
    Leads final (.afterLengths last c (.ofLengths code) done.reverse) none history
      (symbol ++ (numberBits times.extraBits x ++ bits)) out := by
  have hreads := reads_run last c _ done.reverse hs.ne_nil (hcode.path hs)
  rw [hrun] at hreads
  have hfield := reads_field times.extraBits
    (.lengthRun last c (.ofLengths code) done.reverse length times)
    (fun g => (.afterLengths last c (.ofLengths code)
      (List.replicate (times.base + fieldValue g) length ++ done.reverse), none)) (fun _ => rfl)
    (fun _ _ => rfl) (fun _ _ => rfl) (length_numberBits _ x) hextra
  rw [fieldValue_numberBits hx] at hfield
  rw [List.reverse_append, List.reverse_replicate] at h
  rw [afterLengths_of_lt last _ hmissing]
  refine hreads.leads (hfield.leads ?_)
  rw [enter_afterLengths]
  exact h

/-- Lengths are read with the code for lengths until there are enough of them. -/
theorem Lengths.leads {code all done : List Nat} {rest : List Bool} (c : Counts)
    (hcode : IsFull code) (hall : all.length = c.literals + c.distances)
    (h : Lengths code rest all done bits)
    (h' : Leads final (.afterLengths last c (.ofLengths code) all.reverse) none history
      (rest ++ more) out) :
    Leads final (.afterLengths last c (.ofLengths code) done.reverse) none history
      (bits ++ more) out := by
  induction h with
  | done => exact h'
  | @one done l c' bits hl hc hmore ih =>
    have hmissing := hmore.length_le
    rw [hall, List.length_append, List.length_singleton] at hmissing
    have hrun : LengthRun.ofSymbol l = .one l := if_pos hl
    have hreads := reads_run last c _ done.reverse hc.ne_nil (hcode.path hc)
    rw [hrun, Phase.afterRun] at hreads
    rw [List.reverse_append, List.reverse_singleton, List.singleton_append] at ih
    rw [afterLengths_of_lt last _ hmissing, List.append_assoc]
    refine hreads.leads ?_
    rw [enter_afterLengths]
    exact ih
  | @again done l x c' bits hc hx hmore ih =>
    have hmissing := hmore.length_le
    rw [hall, List.length_append, List.length_replicate] at hmissing
    -- The length that is repeated is the one that was read last.
    have hrun : Phase.afterRun last c (.ofLengths code) (done ++ [l]).reverse (.ofSymbol 16) =
        .lengthRun last c (.ofLengths code) (done ++ [l]).reverse l ⟨3, 2⟩ [] := by
      rw [List.reverse_append, List.reverse_singleton, List.singleton_append]
      rfl
    rw [List.append_assoc, List.append_assoc]
    exact leads_repeated (by omega) hcode hc hrun (by decide) hx ih
  | @zeros done x c' bits hc hx hmore ih =>
    have hmissing := hmore.length_le
    rw [hall, List.length_append, List.length_replicate] at hmissing
    have hrun : Phase.afterRun last c (.ofLengths code) done.reverse (.ofSymbol 17) =
        .lengthRun last c (.ofLengths code) done.reverse 0 ⟨3, 3⟩ [] := rfl
    rw [List.append_assoc, List.append_assoc]
    exact leads_repeated (by omega) hcode hc hrun (by decide) hx ih
  | @manyZeros done x c' bits hc hx hmore ih =>
    have hmissing := hmore.length_le
    rw [hall, List.length_append, List.length_replicate] at hmissing
    have hrun : Phase.afterRun last c (.ofLengths code) done.reverse (.ofSymbol 18) =
        .lengthRun last c (.ofLengths code) done.reverse 0 ⟨11, 7⟩ [] := rfl
    rw [List.append_assoc, List.append_assoc]
    exact leads_repeated (by omega) hcode hc hrun (by decide) hx ih

end Codes

end Switchyard.Deflate
