import Switchyard.Proofs.Address
import Switchyard.Proofs.Json.Numbers

/-!
# Every value can be written

The grammar has a text for each text, each integer, and each array and object of values that it has
texts for.
-/

namespace Switchyard.Json

variable {α : Type} {W : List Char → α → Prop} {opening closing : Char} {w : List Char}

theorem exists_part (c : Char) : ∃ w p, Part w p ∧
    ∀ {ps cs}, StringPart.Spells ps cs → StringPart.Spells (p :: ps) (c :: cs) := by
  by_cases hcontrol : c.toNat < 0x20
  · have hzero : Hex.value? '0' = some 0 := rfl
    have hunit := Part.unit hzero hzero (Hex.value?_digitChar (n := c.toNat / 16) (by omega))
      (Hex.value?_digitChar (n := c.toNat % 16) (by omega))
    rw [show ((0 * 16 + 0) * 16 + c.toNat / 16) * 16 + c.toNat % 16 = c.toNat by omega] at hunit
    exact ⟨_, _, hunit, .unit c (by omega)⟩
  · by_cases hescaped : c = '"' ∨ c = '\\'
    · refine ⟨_, _, .escape (c := c) ?_, .char c⟩
      rcases hescaped with rfl | rfl <;> decide
    · obtain ⟨hquote, hbackslash⟩ := not_or.1 hescaped
      exact ⟨_, _, .plain (Nat.le_of_not_lt hcontrol) hquote hbackslash, .char c⟩

theorem exists_quoted (text : List Char) : ∃ w, Quoted w (some text) := by
  obtain ⟨w, ps, hw, htext⟩ : ∃ w ps, Parts w ps ∧ StringPart.Spells ps text := by
    induction text with
    | nil => exact ⟨[], [], .nil, .nil⟩
    | cons c cs ih =>
      obtain ⟨ws, ps, hws, hcs⟩ := ih
      obtain ⟨w, p, hw, hc⟩ := exists_part c
      exact ⟨w ++ ws, p :: ps, .cons hw hws, hc hcs⟩
  exact ⟨_, .text hw htext⟩

/-- No decimal begins with a needless zero. -/
theorem integer_toDigits (n : Nat) : Integer (Nat.toDigits 10 n) := by
  refine ⟨⟨Nat.toDigits_ne_nil, fun c hc => Nat.isDigit_of_mem_toDigits (by decide) (by decide) hc⟩, ?_⟩
  induction n using Nat.strongRecOn with
  | _ n ih =>
    intro behind h
    rcases Nat.lt_or_ge n 10 with hlt | hge
    · rw [Nat.toDigits_of_lt_base hlt] at h
      exact (List.cons.inj h).2.symm
    · rw [Nat.toDigits_of_base_le (by decide) hge] at h
      obtain ⟨c, cs, hcs⟩ := List.exists_cons_of_ne_nil (Nat.toDigits_ne_nil (b := 10) (n := n / 10))
      rw [hcs] at h
      obtain ⟨rfl, -⟩ := List.cons.inj h
      obtain rfl := ih (n / 10) (by omega) _ hcs
      have hzero := digitsValue_toDigits (n / 10)
      rw [hcs, show digitsValue ['0'] = 0 from rfl] at hzero
      omega

theorem number_toString (n : Int) : Number (toString n).toList (some n) := by
  have hds := integer_toDigits n.natAbs
  have hsign : ∃ negative : Bool, (if negative then ['-'] else []) ++ Nat.toDigits 10 n.natAbs =
      (toString n).toList := by
    rw [toList_toString]
    by_cases hn : n < 0
    · exact ⟨true, by rw [if_pos hn]; rfl⟩
    · exact ⟨false, by rw [if_neg hn]; rfl⟩
  obtain ⟨negative, hn⟩ := hsign
  refine ⟨⟨if negative then ['-'] else [], Nat.toDigits 10 n.natAbs, [], [], ?_, ?_, hds, .inl rfl,
    .inl rfl⟩, fun m => ?_⟩
  · rw [← hn, List.append_nil, List.append_nil]
  · cases negative
    · exact .inl rfl
    · exact .inr rfl
  · rw [← (signedValue_eq_some_iff hds).2 hn, ← hn]
    exact signedValue_eq_some_iff hds

theorem exists_separated {x : α} {xs : List α} (h : ∀ y ∈ x :: xs, ∃ w, W w y) :
    ∃ w, Separated W w (x :: xs) := by
  induction xs generalizing x with
  | nil =>
    obtain ⟨w, hw⟩ := h x List.mem_cons_self
    exact ⟨w, .last hw⟩
  | cons y ys ih =>
    obtain ⟨w, hw⟩ := h x List.mem_cons_self
    obtain ⟨ws, hws⟩ := ih fun z hz => h z (List.mem_cons_of_mem _ hz)
    exact ⟨_, .more hw hws⟩

theorem exists_bracketed (opening closing : Char) {xs : List α} (h : ∀ x ∈ xs, ∃ w, W w x) :
    ∃ w, Bracketed W opening closing w xs := by
  cases xs with
  | nil => exact ⟨_, .none (w := []) nofun⟩
  | cons x xs =>
    obtain ⟨w, hw⟩ := exists_separated h
    exact ⟨_, .some hw⟩

theorem padded_self {x : α} (h : W w x) : Padded W w x := by
  have hmk : Padded W ([] ++ (w ++ [])) x := .mk nofun h nofun
  rwa [List.nil_append, List.append_nil] at hmk

theorem exists_array {vs : List Json} (h : ∀ v ∈ vs, ∃ w, Writes w v) : ∃ w, Writes w (.array vs) := by
  have hpadded : ∀ v ∈ vs, ∃ w, Padded Writes w v := fun v hv => (h v hv).imp fun _ => padded_self
  obtain ⟨w, hw⟩ := exists_bracketed '[' ']' hpadded
  exact ⟨w, .array hw⟩

theorem exists_object {ms : List (Option (List Char) × Json)} (hkeys : ∀ m ∈ ms, m.1 ≠ none)
    (h : ∀ m ∈ ms, ∃ w, Writes w m.2) : ∃ w, Writes w (.object ms) := by
  have hmembers : ∀ m ∈ ms, ∃ w, Member Writes w m := by
    rintro ⟨key, v⟩ hm
    obtain ⟨key, rfl⟩ := Option.ne_none_iff_exists'.1 (hkeys _ hm)
    obtain ⟨w, hw⟩ := exists_quoted key
    obtain ⟨ws, hws⟩ := h _ hm
    exact ⟨_, .mk (padded_self hw) (padded_self hws)⟩
  obtain ⟨w, hw⟩ := exists_bracketed '\x7b' '\x7d' hmembers
  exact ⟨w, .object hw⟩

end Switchyard.Json
