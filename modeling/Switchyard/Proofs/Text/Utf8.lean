import Switchyard.Text.Utf8

/-!
# UTF-8 by its encoder

Which bytes are a character is fixed by the encoder alone: `String.utf8EncodeChar` writes one, and
`Begins` says that bytes could still become one. Against these, `read` finds a character where one
stands (`read_eq_char_iff`), and otherwise drops the longest part that could have begun one
(`exists_isBroken`). The lenient reading of a byte string follows: it is the only text that the
relation `Lossy` allows (`lossy_eq_iff`).
-/

namespace Switchyard.Utf8

/-! ### Lead bytes and tails

The table inside `read`, taken out: what a lead byte announces about the bytes behind it.
-/

/-- What a lead byte announces: `count` more bytes, the first of them from `lo` to `hi`, and the
bits that the lead byte itself gives. -/
structure Lead where
  count : Nat
  lo : UInt8
  hi : UInt8
  value : Nat

def lead? (b : UInt8) : Option Lead :=
  if b < 0x80 then some ⟨0, 0x80, 0xBF, b.toNat⟩
  else if b < 0xC2 then none
  else if b < 0xE0 then some ⟨1, 0x80, 0xBF, b.toNat - 0xC0⟩
  else if b = 0xE0 then some ⟨2, 0xA0, 0xBF, 0⟩
  else if b = 0xED then some ⟨2, 0x80, 0x9F, 0xD⟩
  else if b < 0xF0 then some ⟨2, 0x80, 0xBF, b.toNat - 0xE0⟩
  else if b = 0xF0 then some ⟨3, 0x90, 0xBF, 0⟩
  else if b < 0xF4 then some ⟨3, 0x80, 0xBF, b.toNat - 0xF0⟩
  else if b = 0xF4 then some ⟨3, 0x80, 0x8F, 4⟩
  else none

/-- The bytes may stand behind a lead byte that restricts the first of them to `lo` .. `hi`. -/
def IsTail (lo hi : UInt8) : Bytes → Prop
  | [] => True
  | b :: bs => (lo ≤ b ∧ b ≤ hi) ∧ IsTail 0x80 0xBF bs

/-- The bits of a lead byte followed by those of its tail. -/
def valueFrom (value : Nat) (tail : Bytes) : Nat :=
  tail.foldl (fun v b => 64 * v + (b.toNat - 0x80)) value

theorem valueFrom_cons (v : Nat) (b : UInt8) (tail : Bytes) :
    valueFrom v (b :: tail) = valueFrom (64 * v + (b.toNat - 0x80)) tail := by
  rw [valueFrom, List.foldl_cons, ← valueFrom]

theorem read_eq (b : UInt8) (bs : Bytes) :
    read b bs = match lead? b with
      | some l => continuation l.count l.lo l.hi l.value bs
      | none => .broken bs := by
  unfold read lead?
  -- Both sides are one chain of the same conditions.
  iterate 9
    split
    · rfl
  rfl

/-- The rows of the table, one for each number of bytes, in numbers. -/
theorem lead_cases {b : UInt8} {l : Lead} (h : lead? b = some l) :
    (l.count = 0 ∧ b.toNat < 0x80 ∧ l.value = b.toNat ∧ l.lo.toNat = 0x80 ∧
      l.hi.toNat = 0xBF) ∨
    (l.count = 1 ∧ 0xC2 ≤ b.toNat ∧ b.toNat < 0xE0 ∧ l.value = b.toNat - 0xC0 ∧
      l.lo.toNat = 0x80 ∧ l.hi.toNat = 0xBF) ∨
    (l.count = 2 ∧ 0xE0 ≤ b.toNat ∧ b.toNat < 0xF0 ∧ l.value = b.toNat - 0xE0 ∧
      (b.toNat = 0xE0 ∧ l.lo.toNat = 0xA0 ∨ b.toNat ≠ 0xE0 ∧ l.lo.toNat = 0x80) ∧
      (b.toNat = 0xED ∧ l.hi.toNat = 0x9F ∨ b.toNat ≠ 0xED ∧ l.hi.toNat = 0xBF)) ∨
    (l.count = 3 ∧ 0xF0 ≤ b.toNat ∧ b.toNat < 0xF5 ∧ l.value = b.toNat - 0xF0 ∧
      (b.toNat = 0xF0 ∧ l.lo.toNat = 0x90 ∨ b.toNat ≠ 0xF0 ∧ l.lo.toNat = 0x80) ∧
      (b.toNat = 0xF4 ∧ l.hi.toNat = 0x8F ∨ b.toNat ≠ 0xF4 ∧ l.hi.toNat = 0xBF)) := by
  have hb := b.toNat_lt
  unfold lead? at h
  simp only [UInt8.lt_iff_toNat_lt, ← UInt8.toNat_inj, UInt8.reduceToNat] at h
  repeat' split at h
  all_goals try cases h
  all_goals simp
  all_goals omega

theorem exists_lead {b : UInt8} (h : b.toNat < 0x80 ∨ 0xC2 ≤ b.toNat ∧ b.toNat < 0xF5) :
    ∃ l, lead? b = some l := by
  unfold lead?
  simp only [UInt8.lt_iff_toNat_lt, ← UInt8.toNat_inj, UInt8.reduceToNat]
  repeat' split
  all_goals first | omega | exact ⟨_, rfl⟩

theorem lo_le_hi {b : UInt8} {l : Lead} (h : lead? b = some l) : l.lo ≤ l.hi := by
  have := lead_cases h
  rw [UInt8.le_iff_toNat_le]
  omega

/-! ### Tails and continuations -/

section Tail

variable {lo hi : UInt8} {k v : Nat} {bs rest tail : Bytes}

theorem IsTail.of_append {more : Bytes} (h : IsTail lo hi (tail ++ more)) : IsTail lo hi tail := by
  induction tail generalizing lo hi with
  | nil => trivial
  | cons b bs ih => exact ⟨h.1, ih h.2⟩

theorem isTail_replicate (n : Nat) : IsTail 0x80 0xBF (List.replicate n 0x80) := by
  induction n with
  | zero => trivial
  | succ n ih => exact ⟨by decide, ih⟩

/-- A tail can be continued up to any length. -/
theorem IsTail.exists_append (hlo : lo ≤ hi) (h : IsTail lo hi tail) (hk : tail.length ≤ k) :
    ∃ more, (tail ++ more).length = k ∧ IsTail lo hi (tail ++ more) := by
  induction tail generalizing lo hi k with
  | nil =>
    cases k with
    | zero => exact ⟨[], rfl, trivial⟩
    | succ k =>
      have hl : (lo :: List.replicate k 0x80).length = k + 1 := by
        rw [List.length_cons, List.length_replicate]
      exact ⟨lo :: List.replicate k 0x80, hl, ⟨UInt8.le_refl lo, hlo⟩, isTail_replicate k⟩
  | cons b bs ih =>
    obtain ⟨k, rfl⟩ : ∃ j, k = j + 1 := ⟨k - 1, by simp at hk; omega⟩
    obtain ⟨more, hl, hm⟩ := ih (by decide) h.2 (Nat.le_of_succ_le_succ hk)
    exact ⟨more, by simpa using hl, h.1, hm⟩

theorem continuation_append (h : IsTail lo hi tail) :
    continuation tail.length lo hi v (tail ++ rest) = .char (Char.ofNat (valueFrom v tail)) rest := by
  induction tail generalizing lo hi v with
  | nil => rfl
  | cons b bs ih =>
    rw [List.length_cons, List.cons_append, continuation, if_pos h.1, valueFrom_cons]
    exact ih h.2

/-- The three things a continuation can find: a whole tail, a tail that the string cuts off, and a
byte that is not in place. -/
theorem continuation_cases (k : Nat) (lo hi : UInt8) (v : Nat) (bs : Bytes) :
    (∃ tail rest, bs = tail ++ rest ∧ tail.length = k ∧ IsTail lo hi tail ∧
      continuation k lo hi v bs = .char (Char.ofNat (valueFrom v tail)) rest) ∨
    (bs.length < k ∧ IsTail lo hi bs ∧ continuation k lo hi v bs = .cut) ∨
    (∃ tail b rest, bs = tail ++ b :: rest ∧ tail.length < k ∧ IsTail lo hi tail ∧
      ¬ IsTail lo hi (tail ++ [b]) ∧ continuation k lo hi v bs = .broken (b :: rest)) := by
  fun_induction continuation k lo hi v bs with
  | case1 lo hi v bs => exact .inl ⟨[], bs, rfl, rfl, trivial, rfl⟩
  | case2 k lo hi v => exact .inr (.inl ⟨Nat.succ_pos k, trivial, rfl⟩)
  | case3 k lo hi v b bs h ih =>
    rcases ih with ⟨tail, rest, rfl, hk, ht, hc⟩ | ⟨hk, ht, hc⟩ | ⟨tail, x, rest, rfl, hk, ht, hx, hc⟩
    · refine .inl ⟨b :: tail, rest, rfl, congrArg (· + 1) hk, ⟨h, ht⟩, ?_⟩
      rw [hc, valueFrom_cons]
    · exact .inr (.inl ⟨Nat.succ_lt_succ hk, ⟨h, ht⟩, hc⟩)
    · exact .inr (.inr ⟨b :: tail, x, rest, rfl, Nat.succ_lt_succ hk, ⟨h, ht⟩, fun hn => hx hn.2, hc⟩)
  | case4 k lo hi v b bs h =>
    exact .inr (.inr ⟨[], b, bs, rfl, Nat.succ_pos k, trivial, fun hn => h hn.1, rfl⟩)

end Tail

/-! ### The encoder against the table -/

theorem ofNat_eq_of_toNat {n : Nat} {b : UInt8} (h : n = b.toNat) : UInt8.ofNat n = b := by
  rw [h, UInt8.ofNat_toNat]

theorem toNat_ofNat_of_lt {n : Nat} (h : n < 256) : (UInt8.ofNat n).toNat = n := by
  rw [UInt8.toNat_ofNat']
  exact Nat.mod_eq_of_lt h

theorem val_ofNat {n : Nat} (h : n < 0xD800 ∨ 0xDFFF < n ∧ n < 0x110000) :
    (Char.ofNat n).val.toNat = n := by
  rw [Char.ofNat, dif_pos h]
  rfl

/-- A lead byte and a full tail are what the encoder writes for their bits. -/
theorem encode_of_lead {b : UInt8} {l : Lead} {tail : Bytes} (h : lead? b = some l)
    (hl : tail.length = l.count) (ht : IsTail l.lo l.hi tail) :
    String.utf8EncodeChar (Char.ofNat (valueFrom l.value tail)) = b :: tail := by
  -- The bounds of the row put the value into the range in which the encoder uses this many bytes.
  obtain ⟨hc, h⟩ | ⟨hc, h⟩ | ⟨hc, h⟩ | ⟨hc, h⟩ := lead_cases h <;> rw [hc] at hl
  · match tail, hl with
    | [], _ =>
      have hv : (Char.ofNat l.value).val.toNat = l.value := val_ofNat (by omega)
      simp only [valueFrom, List.foldl_nil, String.utf8EncodeChar, hv]
      rw [if_pos (by omega), ofNat_eq_of_toNat h.2.1]
  · match tail, hl with
    | [x], _ =>
      simp only [IsTail, UInt8.le_iff_toNat_le] at ht
      have hv := @val_ofNat (64 * l.value + (x.toNat - 0x80)) (by omega)
      simp only [valueFrom, List.foldl_nil, List.foldl_cons, String.utf8EncodeChar, hv]
      rw [if_neg (by omega), if_pos (by omega)]
      simp only [List.cons.injEq]
      exact ⟨ofNat_eq_of_toNat (by omega), ofNat_eq_of_toNat (by omega), trivial⟩
  · match tail, hl with
    | [x, y], _ =>
      simp only [IsTail, UInt8.le_iff_toNat_le, UInt8.reduceToNat] at ht
      have hv := @val_ofNat (64 * (64 * l.value + (x.toNat - 0x80)) + (y.toNat - 0x80)) (by omega)
      simp only [valueFrom, List.foldl_nil, List.foldl_cons, String.utf8EncodeChar, hv]
      rw [if_neg (by omega), if_neg (by omega), if_pos (by omega)]
      simp only [List.cons.injEq]
      exact ⟨ofNat_eq_of_toNat (by omega), ofNat_eq_of_toNat (by omega),
        ofNat_eq_of_toNat (by omega), trivial⟩
  · match tail, hl with
    | [x, y, z], _ =>
      simp only [IsTail, UInt8.le_iff_toNat_le, UInt8.reduceToNat] at ht
      have hv := @val_ofNat
        (64 * (64 * (64 * l.value + (x.toNat - 0x80)) + (y.toNat - 0x80)) + (z.toNat - 0x80))
        (by omega)
      simp only [valueFrom, List.foldl_nil, List.foldl_cons, String.utf8EncodeChar, hv]
      rw [if_neg (by omega), if_neg (by omega), if_neg (by omega)]
      simp only [List.cons.injEq]
      exact ⟨ofNat_eq_of_toNat (by omega), ofNat_eq_of_toNat (by omega),
        ofNat_eq_of_toNat (by omega), ofNat_eq_of_toNat (by omega), trivial⟩

/-- What the encoder writes is a lead byte and a full tail. -/
theorem lead_of_encode (c : Char) :
    ∃ b l tail, String.utf8EncodeChar c = b :: tail ∧ lead? b = some l ∧ tail.length = l.count ∧
      IsTail l.lo l.hi tail ∧ Char.ofNat (valueFrom l.value tail) = c := by
  have hc : Char.ofNat c.val.toNat = c := Char.ofNat_toNat c
  have hv : c.val.toNat < 0xD800 ∨ 0xDFFF < c.val.toNat ∧ c.val.toNat < 0x110000 := c.valid
  unfold String.utf8EncodeChar
  generalize c.val.toNat = v at hc hv
  subst hc
  show ∃ b l tail, ite _ _ _ = _ ∧ _
  split
  · have hb : (UInt8.ofNat v).toNat = v := toNat_ofNat_of_lt (by omega)
    obtain ⟨l, hl⟩ := exists_lead (b := UInt8.ofNat v) (by omega)
    have := lead_cases hl
    refine ⟨_, l, _, rfl, hl, ?_, trivial, congrArg Char.ofNat ?_⟩ <;> simp [valueFrom] <;> omega
  have hx : (UInt8.ofNat (v % 0x40 + 0x80)).toNat = v % 0x40 + 0x80 := toNat_ofNat_of_lt (by omega)
  split
  · have hb : (UInt8.ofNat (v / 64 % 0x20 + 0xC0)).toNat = v / 64 % 0x20 + 0xC0 :=
      toNat_ofNat_of_lt (by omega)
    obtain ⟨l, hl⟩ := exists_lead (b := UInt8.ofNat (v / 64 % 0x20 + 0xC0)) (by omega)
    have := lead_cases hl
    refine ⟨_, l, _, rfl, hl, ?_, ?_, congrArg Char.ofNat ?_⟩ <;>
      simp only [List.length_cons, List.length_nil, valueFrom, List.foldl_nil, List.foldl_cons,
        IsTail, and_true, UInt8.le_iff_toNat_le] <;> omega
  have hy : (UInt8.ofNat (v / 64 % 0x40 + 0x80)).toNat = v / 64 % 0x40 + 0x80 :=
    toNat_ofNat_of_lt (by omega)
  split
  · have hb : (UInt8.ofNat (v / 4096 % 0x10 + 0xE0)).toNat = v / 4096 % 0x10 + 0xE0 :=
      toNat_ofNat_of_lt (by omega)
    obtain ⟨l, hl⟩ := exists_lead (b := UInt8.ofNat (v / 4096 % 0x10 + 0xE0)) (by omega)
    have := lead_cases hl
    refine ⟨_, l, _, rfl, hl, ?_, ?_, congrArg Char.ofNat ?_⟩ <;>
      simp only [List.length_cons, List.length_nil, valueFrom, List.foldl_nil, List.foldl_cons,
        IsTail, and_true, UInt8.le_iff_toNat_le, UInt8.reduceToNat] <;> omega
  · have hz : (UInt8.ofNat (v / 4096 % 0x40 + 0x80)).toNat = v / 4096 % 0x40 + 0x80 :=
      toNat_ofNat_of_lt (by omega)
    have hb : (UInt8.ofNat (v / 262144 % 0x8 + 0xF0)).toNat = v / 262144 % 0x8 + 0xF0 :=
      toNat_ofNat_of_lt (by omega)
    obtain ⟨l, hl⟩ := exists_lead (b := UInt8.ofNat (v / 262144 % 0x8 + 0xF0)) (by omega)
    have := lead_cases hl
    refine ⟨_, l, _, rfl, hl, ?_, ?_, congrArg Char.ofNat ?_⟩ <;>
      simp only [List.length_cons, List.length_nil, valueFrom, List.foldl_nil, List.foldl_cons,
        IsTail, and_true, UInt8.le_iff_toNat_le, UInt8.reduceToNat] <;> omega

/-! ### Reading against the encoder -/

/-- The bytes of some character begin with these. -/
def Begins (bs : Bytes) : Prop :=
  ∃ c, bs <+: String.utf8EncodeChar c

theorem begins_cons_iff {b : UInt8} {tail : Bytes} :
    Begins (b :: tail) ↔
      ∃ l, lead? b = some l ∧ tail.length ≤ l.count ∧ IsTail l.lo l.hi tail := by
  constructor
  · rintro ⟨c, hc⟩
    obtain ⟨b', l, full, he, hb, hl, ht, -⟩ := lead_of_encode c
    rw [he, List.cons_prefix_cons] at hc
    obtain ⟨rfl, more, rfl⟩ := hc
    exact ⟨l, hb, hl ▸ List.length_append ▸ Nat.le_add_right _ _, ht.of_append⟩
  · rintro ⟨l, hb, hl, ht⟩
    obtain ⟨more, hk, hm⟩ := ht.exists_append (lo_le_hi hb) hl
    exact ⟨_, more, (encode_of_lead hb hk hm).symm⟩

/-- A character is read exactly where its bytes stand. -/
theorem read_eq_char_iff {b : UInt8} {bs rest : Bytes} {c : Char} :
    read b bs = .char c rest ↔ b :: bs = String.utf8EncodeChar c ++ rest := by
  constructor
  · intro h
    rw [read_eq] at h
    cases hb : lead? b with
    | none => rw [hb] at h; cases h
    | some l =>
      rw [hb] at h
      rcases continuation_cases l.count l.lo l.hi l.value bs with
        ⟨tail, rest', rfl, hl, ht, hc⟩ | ⟨-, -, hc⟩ | ⟨_, _, _, -, -, -, -, hc⟩
      · obtain ⟨rfl, rfl⟩ := Front.char.inj (hc.symm.trans h)
        rw [encode_of_lead hb hl ht, List.cons_append]
      · exact absurd (hc.symm.trans h) nofun
      · exact absurd (hc.symm.trans h) nofun
  · intro h
    obtain ⟨b', l, tail, he, hb, hl, ht, rfl⟩ := lead_of_encode c
    rw [he, List.cons_append] at h
    obtain ⟨rfl, rfl⟩ := List.cons.inj h
    rw [read_eq, hb]
    show continuation l.count l.lo l.hi l.value (tail ++ rest) = _
    rw [← hl, continuation_append ht]

/-- A front part that is replaced as a whole: no character stands at its place, and it is the
longest part that could have begun one, or else a single byte. -/
structure IsBroken (part rest : Bytes) : Prop where
  ne_nil : part ≠ []
  no_char (c : Char) : ¬ String.utf8EncodeChar c <+: part ++ rest
  begins : Begins part ∨ part.length = 1
  longest {longer : Bytes} : longer <+: part ++ rest → part.length < longer.length → ¬ Begins longer

/-- There is only one such part. -/
theorem IsBroken.unique {part rest part' rest' : Bytes} (h : IsBroken part rest)
    (h' : IsBroken part' rest') (e : part ++ rest = part' ++ rest') : part = part' ∧ rest = rest' := by
  have key {p q r s : Bytes} (hp : IsBroken p r) (hq : IsBroken q s) (e : p ++ r = q ++ s) :
      q.length ≤ p.length := by
    refine Nat.le_of_not_lt fun hlt => ?_
    -- The longer part begins no character, so it is one byte; the shorter one is not empty.
    have hne := List.length_pos_iff.2 hp.ne_nil
    rcases hq.begins with hb | hb
    · exact hp.longest (e ▸ List.prefix_append q s) hlt hb
    · omega
  exact List.append_inj e (Nat.le_antisymm (key h' h e.symm) (key h h' e))

theorem isBroken_of_cut {b : UInt8} {bs : Bytes} (h : read b bs = .cut) : IsBroken (b :: bs) [] := by
  have hb : Begins (b :: bs) := by
    rw [read_eq] at h
    cases hb : lead? b with
    | none => rw [hb] at h; cases h
    | some l =>
      rw [hb] at h
      rcases continuation_cases l.count l.lo l.hi l.value bs with
        ⟨_, _, -, -, -, hc⟩ | ⟨hk, ht, -⟩ | ⟨_, _, _, -, -, -, -, hc⟩
      · exact absurd (hc.symm.trans h) nofun
      · exact begins_cons_iff.2 ⟨l, hb, Nat.le_of_lt hk, ht⟩
      · exact absurd (hc.symm.trans h) nofun
  refine ⟨nofun, ?_, .inl hb, ?_⟩
  · rintro c ⟨rest, hc⟩
    rw [List.append_nil] at hc
    exact absurd (h.symm.trans (read_eq_char_iff.2 hc.symm)) nofun
  · intro longer hp hl
    rw [List.append_nil] at hp
    exact absurd hp.length_le (Nat.not_le_of_lt hl)

theorem exists_isBroken {b : UInt8} {bs rest : Bytes} (h : read b bs = .broken rest) :
    ∃ part, b :: bs = part ++ rest ∧ IsBroken part rest := by
  have hno {part : Bytes} (e : b :: bs = part ++ rest) (c : Char) :
      ¬ String.utf8EncodeChar c <+: part ++ rest := by
    rintro ⟨rest', hc⟩
    exact absurd (h.symm.trans (read_eq_char_iff.2 (e.trans hc.symm))) nofun
  rw [read_eq] at h
  cases hb : lead? b with
  | none =>
    -- The byte is no lead byte, so it is a part of its own.
    rw [hb] at h
    obtain rfl := Front.broken.inj h
    refine ⟨[b], rfl, nofun, hno rfl, .inr rfl, ?_⟩
    rintro longer ⟨more, e⟩ hl hbegins
    match longer, hl with
    | x :: tail, _ =>
      obtain ⟨rfl, -⟩ := List.cons.inj e
      obtain ⟨l, hl, -⟩ := begins_cons_iff.1 hbegins
      exact absurd (hb.symm.trans hl) nofun
  | some l =>
    rw [hb] at h
    rcases continuation_cases l.count l.lo l.hi l.value bs with
      ⟨_, _, -, -, -, hc⟩ | ⟨-, -, hc⟩ | ⟨tail, x, rest', rfl, hk, ht, hx, hc⟩
    · exact absurd (hc.symm.trans h) nofun
    · exact absurd (hc.symm.trans h) nofun
    obtain rfl := Front.broken.inj (hc.symm.trans h)
    refine ⟨b :: tail, rfl, nofun, hno rfl, .inl ?_, ?_⟩
    · exact begins_cons_iff.2 ⟨l, hb, Nat.le_of_lt hk, ht⟩
    · -- A longer part would have `x` in its tail.
      intro longer hp hl hbegins
      obtain ⟨more, rfl⟩ : b :: tail ++ [x] <+: longer :=
        List.prefix_of_prefix_length_le ⟨rest', by simp⟩ hp (by simpa [Nat.succ_le_iff] using hl)
      obtain ⟨l', hb', -, ht'⟩ := begins_cons_iff.1 hbegins
      obtain rfl := Option.some.inj (hb.symm.trans hb')
      exact hx ht'.of_append

/-! ### The lenient reading -/

/-- The texts that a lenient reader may make of a byte string: each character for its bytes, and
U+FFFD for each broken part. -/
inductive Lossy : Bytes → List Char → Prop
  | nil : Lossy [] []
  | char {c : Char} {rest : Bytes} {cs : List Char} :
      Lossy rest cs → Lossy (String.utf8EncodeChar c ++ rest) (c :: cs)
  | broken {part rest : Bytes} {cs : List Char} :
      IsBroken part rest → Lossy rest cs → Lossy (part ++ rest) (replacement :: cs)

theorem lossyFrom_eq (acc : List Char) (bs : Bytes) :
    ∃ cs, Lossy bs cs ∧ lossyFrom acc bs = acc.reverse ++ cs := by
  fun_induction lossyFrom acc bs with
  | case1 acc => exact ⟨[], .nil, (List.append_nil _).symm⟩
  | case2 acc b bs c rest h ih =>
    obtain ⟨cs, hl, e⟩ := ih
    refine ⟨c :: cs, read_eq_char_iff.1 h ▸ hl.char, ?_⟩
    rw [e, List.reverse_cons, List.append_assoc, List.singleton_append]
  | case3 acc b bs rest h ih =>
    obtain ⟨cs, hl, e⟩ := ih
    obtain ⟨part, hp, hb⟩ := exists_isBroken h
    refine ⟨replacement :: cs, hp ▸ hl.broken hb, ?_⟩
    rw [e, List.reverse_cons, List.append_assoc, List.singleton_append]
  | case4 acc b bs h =>
    refine ⟨[replacement], ?_, List.reverse_cons⟩
    have := Lossy.nil.broken (isBroken_of_cut h)
    rwa [List.append_nil] at this

theorem encode_append_inj {c d : Char} {rest rest' : Bytes}
    (h : String.utf8EncodeChar c ++ rest = String.utf8EncodeChar d ++ rest') :
    c = d ∧ rest = rest' := by
  obtain ⟨b, -, tail, he, -⟩ := lead_of_encode c
  have hc : read b (tail ++ rest) = .char c rest := read_eq_char_iff.2 (by rw [he]; rfl)
  have hd : read b (tail ++ rest) = .char d rest' := read_eq_char_iff.2 (by rw [← h, he]; rfl)
  exact Front.char.inj (hc.symm.trans hd)

theorem encode_append_ne_nil (c : Char) (rest : Bytes) : String.utf8EncodeChar c ++ rest ≠ [] := by
  obtain ⟨b, -, tail, he, -⟩ := lead_of_encode c
  rw [he]
  nofun

theorem Lossy.unique {bs : Bytes} {cs cs' : List Char} (h : Lossy bs cs) (h' : Lossy bs cs') :
    cs = cs' := by
  induction h generalizing cs' with
  | nil =>
    generalize e : ([] : Bytes) = bs at h'
    cases h' with
    | nil => rfl
    | char => exact absurd e.symm (encode_append_ne_nil _ _)
    | broken hb => exact absurd (List.append_eq_nil_iff.1 e.symm).1 hb.ne_nil
  | @char c rest cs _ ih =>
    generalize e : String.utf8EncodeChar c ++ rest = bs at h'
    cases h' with
    | nil => exact absurd e (encode_append_ne_nil _ _)
    | char h' =>
      obtain ⟨rfl, rfl⟩ := encode_append_inj e
      rw [ih h']
    | broken hb => exact absurd ⟨rest, e⟩ (hb.no_char c)
  | @broken part rest cs hb _ ih =>
    generalize e : part ++ rest = bs at h'
    cases h' with
    | nil => exact absurd (List.append_eq_nil_iff.1 e).1 hb.ne_nil
    | @char d rest' => exact absurd ⟨rest', e.symm⟩ (hb.no_char d)
    | broken hb' h' =>
      obtain ⟨rfl, rfl⟩ := hb.unique hb' e
      rw [ih h']

theorem lossy_isLossy (bs : Bytes) : Lossy bs (lossy bs) := by
  obtain ⟨cs, hl, e⟩ := lossyFrom_eq [] bs
  rwa [lossy, e]

/-- The lenient reading is the only text that is allowed. -/
theorem lossy_eq_iff {bs : Bytes} {cs : List Char} : lossy bs = cs ↔ Lossy bs cs :=
  ⟨fun h => h ▸ lossy_isLossy bs, (lossy_isLossy bs).unique⟩

/-! ### Texts -/

theorem ofText_cons (c : Char) (cs : List Char) :
    Bytes.ofText (c :: cs) = String.utf8EncodeChar c ++ Bytes.ofText cs := rfl

theorem decodeFrom_ofText (acc cs : List Char) :
    decodeFrom acc (Bytes.ofText cs) = some (acc.reverse ++ cs) := by
  induction cs generalizing acc with
  | nil =>
    rw [Bytes.ofText, List.flatMap_nil, decodeFrom, List.append_nil]
  | cons c cs ih =>
    obtain ⟨b, -, tail, he, -⟩ := lead_of_encode c
    have hread : read b (tail ++ Bytes.ofText cs) = .char c (Bytes.ofText cs) :=
      read_eq_char_iff.2 (by rw [he]; rfl)
    rw [ofText_cons, he, List.cons_append, decodeFrom]
    split
    · next hc =>
      rw [hread] at hc
      obtain ⟨rfl, rfl⟩ := Front.char.inj hc
      rw [ih, List.reverse_cons, List.append_assoc, List.singleton_append]
    · next hb =>
      rw [hread] at hb
      cases hb
    · next hb =>
      rw [hread] at hb
      cases hb

/-- A text is read back from its bytes. -/
theorem decode?_ofText (cs : List Char) : decode? (Bytes.ofText cs) = some cs :=
  decodeFrom_ofText [] cs

theorem eq_ofText_of_decodeFrom {acc cs : List Char} {bs : Bytes}
    (h : decodeFrom acc bs = some cs) : ∃ rest, cs = acc.reverse ++ rest ∧ bs = Bytes.ofText rest := by
  fun_induction decodeFrom acc bs with
  | case1 acc => exact ⟨[], by simpa using h.symm, rfl⟩
  | case2 acc b bs c rest hread ih =>
    obtain ⟨more, rfl, rfl⟩ := ih h
    refine ⟨c :: more, by simp, ?_⟩
    rw [ofText_cons]
    exact read_eq_char_iff.1 hread
  | case3 | case4 => cases h

/-- The bytes that are UTF-8 are those of a text. -/
theorem decode?_eq_some_iff {bs : Bytes} {cs : List Char} :
    decode? bs = some cs ↔ bs = Bytes.ofText cs := by
  refine ⟨fun h => ?_, fun h => h ▸ decode?_ofText cs⟩
  obtain ⟨rest, rfl, rfl⟩ := eq_ofText_of_decodeFrom h
  rfl

/-- A part that begins a character is not broken. -/
theorem read_ne_broken {b : UInt8} {bs rest : Bytes} (h : Begins (b :: bs)) :
    read b bs ≠ .broken rest := by
  obtain ⟨l, hb, hlength, htail⟩ := begins_cons_iff.1 h
  rw [read_eq, hb]
  dsimp only
  intro hbroken
  rcases continuation_cases l.count l.lo l.hi l.value bs with
    ⟨_, _, _, _, _, h'⟩ | ⟨_, _, h'⟩ | ⟨tail, c, more, rfl, _, _, hnot, -⟩
  · rw [h'] at hbroken
    cases hbroken
  · rw [h'] at hbroken
    cases hbroken
  · have hall : IsTail l.lo l.hi (tail ++ [c] ++ more) := by rwa [List.append_assoc]
    exact hnot hall.of_append

/-- A beginning of a text passes, up to the character that is cut off at its end. -/
theorem advance_of_append {bs later : Bytes} {cs : List Char} (h : bs ++ later = Bytes.ofText cs) :
    ∃ (cut : Bytes) (ds : List Char), advance bs = some cut ∧ cut ++ later = Bytes.ofText ds := by
  induction cs generalizing bs with
  | nil =>
    obtain ⟨rfl, rfl⟩ := List.append_eq_nil_iff.1 h
    exact ⟨[], [], by rw [advance], rfl⟩
  | cons c cs ih =>
    cases bs with
    | nil => exact ⟨[], c :: cs, by rw [advance], h⟩
    | cons b bs =>
      rw [ofText_cons] at h
      rw [advance]
      split
      · next c' rest hread =>
        have hc := read_eq_char_iff.1 hread
        rw [hc, List.append_assoc] at h
        exact ih (encode_append_inj h).2
      · next rest hread =>
        -- The bytes are no character, so they are a part of the one that comes here.
        have hbegins : Begins (b :: bs) := by
          rcases List.append_eq_append_iff.1 h with ⟨more, hc, -⟩ | ⟨more, hc, -⟩
          · exact ⟨c, more, hc.symm⟩
          · have hchar := read_eq_char_iff.2 hc
            rw [hread] at hchar
            cases hchar
        exact absurd hread (read_ne_broken hbegins)
      · exact ⟨b :: bs, c :: cs, rfl, h⟩

end Switchyard.Utf8
