import Switchyard.Json.Value

/-!
# The members of an object

A key that is looked for is there once, or not at all, or more than once (`lacks_or_has_or_repeats`), and
`single?` tells these apart.
-/

namespace Switchyard.Json

/-- One member has the key, and this value. -/
def Has (key : List Char) (v : Json) (ms : List (Option (List Char) × Json)) : Prop :=
  ∃ before behind, ms = before ++ (some key, v) :: behind ∧ ∀ m ∈ before ++ behind, m.1 ≠ some key

/-- No member has the key. -/
def Lacks (key : List Char) (ms : List (Option (List Char) × Json)) : Prop :=
  ∀ m ∈ ms, m.1 ≠ some key

/-- Two members have the key. -/
def Repeats (key : List Char) (ms : List (Option (List Char) × Json)) : Prop :=
  ∃ v v', [(some key, v), (some key, v')].Sublist ms

/-- Every key is a text. -/
def Keyed (ms : List (Option (List Char) × Json)) : Prop :=
  ∀ m ∈ ms, m.1 ≠ none

/-- A known member is no good: it is there twice, or is not what it has to be. -/
def Spoiled (key : List Char) (P : Json → Prop) (ms : List (Option (List Char) × Json)) : Prop :=
  Repeats key ms ∨ ∃ v, (some key, v) ∈ ms ∧ ¬ P v

variable {key : List Char} {v : Json} {ms : List (Option (List Char) × Json)} {lo hi n : Int}

theorem keysReadable_iff : keysReadable ms = true ↔ Keyed ms := by
  simp only [keysReadable, List.all_eq_true, Option.isSome_iff_ne_none, Keyed]

theorem valuesAt_eq_nil_iff : valuesAt key ms = [] ↔ Lacks key ms := by
  simp only [valuesAt, List.filterMap_eq_nil_iff, ite_eq_right_iff, reduceCtorEq, imp_false, Lacks]

theorem valuesAt_eq_cons_iff {vs : List Json} : valuesAt key ms = v :: vs ↔
    ∃ before behind, ms = before ++ (some key, v) :: behind ∧ Lacks key before ∧
      valuesAt key behind = vs := by
  rw [valuesAt, List.filterMap_eq_cons_iff]
  constructor
  · rintro ⟨before, ⟨k, v'⟩, behind, rfl, hbefore, hv, hbehind⟩
    obtain ⟨rfl, rfl⟩ : k = some key ∧ v' = v := by simpa using hv
    exact ⟨before, behind, rfl, valuesAt_eq_nil_iff.1 (List.filterMap_eq_nil_iff.2 hbefore), hbehind⟩
  · rintro ⟨before, behind, rfl, hbefore, hbehind⟩
    exact ⟨before, _, behind, rfl, List.filterMap_eq_nil_iff.1 (valuesAt_eq_nil_iff.2 hbefore),
      if_pos rfl, hbehind⟩

theorem valuesAt_eq_singleton_iff : valuesAt key ms = [v] ↔ Has key v ms := by
  rw [valuesAt_eq_cons_iff]
  constructor
  · rintro ⟨before, behind, hms, hbefore, hbehind⟩
    exact ⟨before, behind, hms, List.forall_mem_append.2 ⟨hbefore, valuesAt_eq_nil_iff.1 hbehind⟩⟩
  · rintro ⟨before, behind, hms, hother⟩
    obtain ⟨hbefore, hbehind⟩ := List.forall_mem_append.1 hother
    exact ⟨before, behind, hms, hbefore, valuesAt_eq_nil_iff.2 hbehind⟩

theorem single?_eq_some_none_iff : single? key ms = some none ↔ Lacks key ms := by
  rw [← valuesAt_eq_nil_iff, single?]
  rcases valuesAt key ms with - | ⟨v, - | ⟨v', vs⟩⟩ <;> simp

theorem single?_eq_some_some_iff : single? key ms = some (some v) ↔ Has key v ms := by
  rw [← valuesAt_eq_singleton_iff, single?]
  rcases valuesAt key ms with - | ⟨v, - | ⟨v', vs⟩⟩ <;> simp

/-- A key is there once, or not, or more than once. -/
theorem lacks_or_has_or_repeats (key : List Char) (ms : List (Option (List Char) × Json)) :
    Lacks key ms ∨ (∃ v, Has key v ms) ∨ Repeats key ms := by
  rcases h : valuesAt key ms with - | ⟨v, - | ⟨v', vs⟩⟩
  · exact .inl (valuesAt_eq_nil_iff.1 h)
  · exact .inr (.inl ⟨v, valuesAt_eq_singleton_iff.1 h⟩)
  · obtain ⟨before, behind, rfl, -, h⟩ := valuesAt_eq_cons_iff.1 h
    obtain ⟨between, behind, rfl, -, -⟩ := valuesAt_eq_cons_iff.1 h
    refine .inr (.inr ⟨v, v', ?_⟩)
    refine (List.Sublist.cons_cons _ ?_).trans (List.sublist_append_right _ _)
    exact (List.Sublist.cons_cons _ (List.nil_sublist _)).trans (List.sublist_append_right _ _)

variable {P : Json → Prop}

theorem Has.eq {v' : Json} (h : Has key v ms) (h' : (some key, v') ∈ ms) : v' = v := by
  obtain ⟨before, behind, rfl, hother⟩ := h
  rcases List.mem_append.1 h' with hmem | hmem
  · exact absurd rfl (hother _ (List.mem_append_left _ hmem))
  · rcases List.mem_cons.1 hmem with heq | hmem
    · exact (Prod.mk.inj heq).2
    · exact absurd rfl (hother _ (List.mem_append_right _ hmem))

theorem Has.mem (h : Has key v ms) : (some key, v) ∈ ms := by
  obtain ⟨before, behind, rfl, -⟩ := h
  exact List.mem_append_right _ List.mem_cons_self

theorem Has.not_lacks (h : Has key v ms) : ¬ Lacks key ms :=
  fun hno => hno _ h.mem rfl

theorem Has.not_repeats (h : Has key v ms) : ¬ Repeats key ms := by
  rintro ⟨v', v'', hsub⟩
  have hlen := (hsub.filterMap fun m => if m.1 = some key then some m.2 else none).length_le
  rw [show ms.filterMap _ = [v] from valuesAt_eq_singleton_iff.2 h] at hlen
  simp at hlen

theorem Lacks.not_spoiled (h : Lacks key ms) : ¬ Spoiled key P ms := by
  rintro (⟨v, v', hsub⟩ | ⟨v, hmem, -⟩)
  · exact h _ (hsub.subset List.mem_cons_self) rfl
  · exact h _ hmem rfl

theorem Has.not_spoiled (h : Has key v ms) (hv : P v) : ¬ Spoiled key P ms := by
  rintro (hrepeats | ⟨v', hmem, hv'⟩)
  · exact h.not_repeats hrepeats
  · exact hv' (h.eq hmem ▸ hv)

/-- A known member is missing, or there and what it has to be, unless it is no good. -/
theorem lacks_or_has_of_not_spoiled (h : ¬ Spoiled key P ms) :
    Lacks key ms ∨ ∃ v, Has key v ms ∧ P v := by
  obtain ⟨hrepeats, htyped⟩ := not_or.1 h
  rcases lacks_or_has_or_repeats key ms with hlacks | ⟨v, hhas⟩ | hrepeats'
  · exact .inl hlacks
  · exact .inr ⟨v, hhas, Classical.byContradiction fun hv => htyped ⟨v, hhas.mem, hv⟩⟩
  · exact (hrepeats hrepeats').elim

theorem keyed_pair (key key' : List Char) (v v' : Json) : Keyed [(some key, v), (some key', v')] := by
  simp [Keyed]

theorem has_pair {key key' : List Char} (h : key ≠ key') (v v' : Json) :
    Has key v [(some key, v), (some key', v')] ∧ Has key' v' [(some key, v), (some key', v')] :=
  ⟨⟨[], [(some key', v')], rfl, by simp [h.symm]⟩, ⟨[(some key, v)], [], rfl, by simp [h]⟩⟩

theorem integer?_eq_some_iff : integer? lo hi v = some n ↔ v = .number (some n) ∧ lo ≤ n ∧ n ≤ hi := by
  unfold integer?
  split
  · next m =>
    rw [Option.ite_none_right_eq_some, Option.some.injEq]
    constructor
    · rintro ⟨hm, rfl⟩
      exact ⟨rfl, hm⟩
    · rintro ⟨h, hn⟩
      obtain rfl : m = n := by simpa using h
      exact ⟨hn, rfl⟩
  · next hv =>
    refine ⟨nofun, ?_⟩
    rintro ⟨rfl, -⟩
    exact (hv n rfl).elim

theorem text?_eq_some_iff {t : List Char} : text? v = some t ↔ v = .string (some t) := by
  unfold text?
  split
  · simp
  · next hv =>
    refine ⟨nofun, ?_⟩
    rintro rfl
    exact (hv _ rfl).elim

end Switchyard.Json
