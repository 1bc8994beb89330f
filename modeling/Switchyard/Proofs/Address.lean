import Mathlib.Tactic.IntervalCases
import Switchyard.Address
import Switchyard.Proofs.Text.Numeral
import Switchyard.Proofs.Text.Split

/-!
# Addresses both ways

The texts that are written for addresses are read back: four decimal octets (`parse?_dotted`) and eight
groups in full (`parse?_colonSeparated`). Each piece is read on its own, as the number it was written
for, and the marks between the pieces are in none of them, so a text is cut where it was joined. Groups
in full have no gap, since no group is empty.
-/

namespace Switchyard

/-! ### Digits in base sixteen -/

namespace Hex

theorem value?_digitChar {n : Nat} (h : n < 16) : value? (Nat.digitChar n) = some n := by
  interval_cases n <;> rfl

/-- The digits of a number have values, and those make up the number. -/
theorem exists_mapM_toDigits (n : Nat) :
    ∃ ds, (Nat.toDigits 16 n).mapM value? = some ds ∧ ds.foldl (fun m d => 16 * m + d) 0 = n := by
  induction n using Nat.strongRecOn with
  | _ n ih =>
    rcases Nat.lt_or_ge n 16 with hlt | hge
    · refine ⟨[n], ?_, by simp⟩
      rw [Nat.toDigits_of_lt_base hlt, List.mapM_cons, value?_digitChar hlt]
      rfl
    · obtain ⟨ds, hds, hvalue⟩ := ih (n / 16) (by omega)
      refine ⟨ds ++ [n % 16], ?_, ?_⟩
      · rw [Nat.toDigits_of_base_le (by decide) hge, List.mapM_append, hds, List.mapM_cons,
          value?_digitChar (by omega)]
        rfl
      · rw [List.foldl_append, hvalue, List.foldl_cons, List.foldl_nil]
        omega

theorem isSome_value?_of_mem_toDigits {n : Nat} {c : Char} (h : c ∈ Nat.toDigits 16 n) :
    (value? c).isSome := by
  induction n using Nat.strongRecOn with
  | _ n ih =>
    rcases Nat.lt_or_ge n 16 with hlt | hge
    · rw [Nat.toDigits_of_lt_base hlt, List.mem_singleton] at h
      rw [h, value?_digitChar hlt]
      rfl
    · rw [Nat.toDigits_of_base_le (by decide) hge, List.mem_append, List.mem_singleton] at h
      rcases h with h | rfl
      · exact ih (n / 16) (by omega) h
      · rw [value?_digitChar (by omega)]
        rfl

end Hex

/-- Only zero is written with a zero in front. -/
theorem Numeral.eq_zero_of_head? {n : Nat} (h : (ofNat n).head? = some '0') : n = 0 := by
  unfold ofNat at h
  induction n using Nat.strongRecOn with
  | _ n ih =>
    rcases Nat.lt_or_ge n 10 with hlt | hge
    · rw [Nat.toDigits_of_lt_base hlt] at h
      simpa using h
    · have hdiv : n / 10 = 0 := by
        refine ih (n / 10) (by omega) ?_
        obtain ⟨c, cs, hcs⟩ := List.exists_cons_of_ne_nil (Nat.toDigits_ne_nil (n := n / 10) (b := 10))
        rw [Nat.toDigits_of_base_le (by decide) hge, hcs] at h
        rwa [hcs]
      omega

namespace IpAddress

/-! ### Piece by piece -/

theorem octet?_ofNat (b : UInt8) : octet? (Numeral.ofNat b.toNat) = some b := by
  have hzero : ¬ ((Numeral.ofNat b.toNat).head? = some '0' ∧
      1 < (Numeral.ofNat b.toNat).length) := by
    rintro ⟨hhead, hlong⟩
    rw [Numeral.eq_zero_of_head? hhead] at hlong
    exact absurd hlong (by decide)
  rw [octet?, if_neg hzero, Numeral.digits?_ofNat b.toNat_lt, Option.map_some, UInt8.ofNat_toNat]

theorem group?_groupText (g : UInt16) : group? (groupText g) = some g := by
  obtain ⟨ds, hds, hvalue⟩ := Hex.exists_mapM_toDigits g.toNat
  have hlength : 1 ≤ (groupText g).length ∧ (groupText g).length ≤ 4 :=
    ⟨Nat.length_toDigits_pos, (Nat.length_toDigits_le_iff (by decide) (by decide)).2 g.toNat_lt⟩
  rw [group?, if_pos hlength, groupText, hds, Option.map_some, hvalue, UInt16.ofNat_toNat]

theorem mapM_map_eq_some {α β : Type} {write : α → β} {read : β → Option α}
    (h : ∀ a, read (write a) = some a) (as : List α) : (as.map write).mapM read = some as := by
  induction as with
  | nil => rfl
  | cons a as ih =>
    rw [List.map_cons, List.mapM_cons, h, ih]
    rfl

theorem groups?_map_groupText (gs : List UInt16) : groups? (gs.map groupText) = some gs := by
  induction gs with
  | nil => rfl
  | cons g gs ih =>
    cases gs with
    | nil => simp [groups?, group?_groupText]
    | cons g' gs =>
      have htail : groups? (groupText g' :: gs.map groupText) = some (g' :: gs) := ih
      rw [List.map_cons, List.map_cons, groups?, group?_groupText, htail]
      · rfl
      · exact List.cons_ne_nil _ _

/-! ### The marks between the pieces -/

theorem dot_notMem_ofNat (n : Nat) : '.' ∉ Numeral.ofNat n := fun h =>
  absurd (Numeral.isDigit_of_mem_ofNat h) (by decide)

theorem colon_notMem_groupText (g : UInt16) : ':' ∉ groupText g := fun h =>
  absurd (Hex.isSome_value?_of_mem_toDigits h) (by decide)

theorem dot_notMem_groupText (g : UInt16) : '.' ∉ groupText g := fun h =>
  absurd (Hex.isSome_value?_of_mem_toDigits h) (by decide)

theorem splitAll_dotted {octets : List UInt8} (h : octets ≠ []) :
    Text.splitAll (· == '.') (dotted octets) = octets.map fun b => Numeral.ofNat b.toNat := by
  refine Text.Pieces.eq_splitAll ⟨by simpa using h, fun w hw => ?_, rfl⟩
  obtain ⟨b, -, rfl⟩ := List.mem_map.1 hw
  exact dot_notMem_ofNat b.toNat

theorem splitAll_colonSeparated {gs : List UInt16} (h : gs ≠ []) :
    Text.splitAll (· == ':') (colonSeparated gs) = gs.map groupText := by
  refine Text.Pieces.eq_splitAll ⟨by simpa using h, fun w hw => ?_, rfl⟩
  obtain ⟨g, -, rfl⟩ := List.mem_map.1 hw
  exact colon_notMem_groupText g

@[simp] theorem colonSeparated_singleton (g : UInt16) : colonSeparated [g] = groupText g :=
  List.intercalate_singleton

theorem colonSeparated_cons_cons (g g' : UInt16) (gs : List UInt16) :
    colonSeparated (g :: g' :: gs) = groupText g ++ ':' :: colonSeparated (g' :: gs) := by
  rw [colonSeparated, List.map_cons, List.map_cons, List.intercalate_cons_cons, List.append_assoc]
  rfl

theorem mem_colonSeparated {c : Char} {gs : List UInt16} (h : c ∈ colonSeparated gs) :
    c = ':' ∨ ∃ g, c ∈ groupText g := by
  induction gs with
  | nil => cases h
  | cons g gs ih =>
    cases gs with
    | nil => exact .inr ⟨g, colonSeparated_singleton g ▸ h⟩
    | cons g' gs =>
      rw [colonSeparated_cons_cons, List.mem_append, List.mem_cons] at h
      rcases h with h | h | h
      · exact .inr ⟨g, h⟩
      · exact .inl h
      · exact ih h

theorem dot_notMem_colonSeparated (gs : List UInt16) : '.' ∉ colonSeparated gs := by
  intro h
  rcases mem_colonSeparated h with h | ⟨g, h⟩
  · cases h
  · exact dot_notMem_groupText g h

/-! ### No gap -/

theorem splitGap_append {w : List Char} (h : ':' ∉ w) {rest : List Char}
    (hrest : splitGap rest = none) : splitGap (w ++ rest) = none := by
  induction w with
  | nil => exact hrest
  | cons c w ih =>
    obtain ⟨hc, hw⟩ := not_or.1 (mt List.mem_cons.2 h)
    rw [List.cons_append, splitGap, ih hw]
    · rfl
    · rintro _ rfl
      exact absurd rfl hc

theorem splitGap_colon {c : Char} (hc : c ≠ ':') {rest : List Char}
    (hrest : splitGap (c :: rest) = none) : splitGap (':' :: c :: rest) = none := by
  rw [splitGap, hrest]
  · rfl
  · rintro _ - heq
    exact hc (List.cons.inj heq).1

/-- Groups begin with a digit. -/
theorem exists_colonSeparated_eq_cons (g : UInt16) (gs : List UInt16) :
    ∃ c rest, colonSeparated (g :: gs) = c :: rest ∧ c ≠ ':' := by
  obtain ⟨c, w, hw⟩ := List.exists_cons_of_ne_nil (Nat.toDigits_ne_nil (n := g.toNat) (b := 16))
  have hc : c ≠ ':' := by
    rintro rfl
    refine colon_notMem_groupText g ?_
    rw [groupText, hw]
    exact List.mem_cons_self
  cases gs with
  | nil => exact ⟨c, w, (colonSeparated_singleton g).trans hw, hc⟩
  | cons g' gs =>
    refine ⟨c, w ++ ':' :: colonSeparated (g' :: gs), ?_, hc⟩
    rw [colonSeparated_cons_cons, groupText, hw, List.cons_append]

theorem splitGap_colonSeparated (gs : List UInt16) : splitGap (colonSeparated gs) = none := by
  induction gs with
  | nil => rfl
  | cons g gs ih =>
    cases gs with
    | nil =>
      rw [colonSeparated_singleton, ← List.append_nil (groupText g)]
      exact splitGap_append (colon_notMem_groupText g) rfl
    | cons g' gs =>
      rw [colonSeparated_cons_cons]
      refine splitGap_append (colon_notMem_groupText g) ?_
      obtain ⟨c, rest, hrest, hc⟩ := exists_colonSeparated_eq_cons g' gs
      rw [hrest] at ih ⊢
      exact splitGap_colon hc ih

/-! ### Whole addresses -/

/-- The bytes of an address on the wire. -/
def bytes : IpAddress → Bytes
  | v4 octets _ => octets
  | v6 groups _ => groups.flatMap groupOctets

/-- Four octets in dotted form are read back. -/
theorem parse?_dotted {octets : List UInt8} (h : octets.length = 4) :
    parse? (dotted octets) = some (.v4 octets h) := by
  have hne : octets ≠ [] := List.ne_nil_of_length_pos (by omega)
  have hread : octets? (dotted octets) = some octets := by
    unfold octets?
    rw [splitAll_dotted hne, if_pos (by rw [List.length_map, h])]
    exact mapM_map_eq_some octet?_ofNat octets
  rw [parse?, parseV4?, hread]
  simp [h]

/-- Eight groups in full are read back, and not as anything else. -/
theorem parse?_colonSeparated {groups : List UInt16} (h : groups.length = 8) :
    parse? (colonSeparated groups) = some (.v6 groups h) := by
  have hne : groups ≠ [] := List.ne_nil_of_length_pos (by omega)
  have htext : colonSeparated groups ≠ [] := by
    obtain ⟨g, gs, rfl⟩ := List.exists_cons_of_ne_nil hne
    obtain ⟨c, rest, hrest, -⟩ := exists_colonSeparated_eq_cons g gs
    rw [hrest]
    exact List.cons_ne_nil c rest
  have hread : v6Groups? (colonSeparated groups) = some groups := by
    rw [v6Groups?, splitGap_colonSeparated]
    dsimp only
    rw [pieces, if_neg htext, splitAll_colonSeparated hne, groups?_map_groupText]
  have hdotted : parseV4? (colonSeparated groups) = none := by
    have hone : octets? (colonSeparated groups) = none := by
      unfold octets?
      rw [Text.splitAll_eq_singleton
        (Text.beq_eq_false_of_notMem (dot_notMem_colonSeparated groups))]
      rfl
    rw [parseV4?, hone]
  rw [parse?, hdotted, Option.none_or, parseV6?, hread]
  simp [h]

theorem isLiteral_of_parse? {cs : List Char} {a : IpAddress} (h : parse? cs = some a) :
    isLiteral cs = true := by
  rw [isLiteral, h]
  rfl

end IpAddress

end Switchyard
