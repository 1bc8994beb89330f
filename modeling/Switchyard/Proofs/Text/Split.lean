import Mathlib.Data.List.Forall2
import Mathlib.Data.List.TakeWhile
import Switchyard.Text.Split

/-!
# Splitting and joining

The pieces of a text at one separator are the only texts without the separator that are the text
when it is put between them: `splitAll_eq_iff`. A text with a separator in it is split on both sides
of that separator apart: `splitAll_append_cons`.
-/

namespace Switchyard.Text

/-- Texts without the separator that are `text` with the separator between them. -/
structure Pieces (sep : Char) (text : List Char) (pieces : List (List Char)) : Prop where
  ne_nil : pieces ≠ []
  free : ∀ w ∈ pieces, sep ∉ w
  joined : List.intercalate [sep] pieces = text

section Class

variable {p : Char → Bool} {sep : Char}

theorem splitAll_append_cons (hsep : p sep = true) (cs rest : List Char) :
    splitAll p (cs ++ sep :: rest) = splitAll p cs ++ splitAll p rest := by
  induction cs with
  | nil => rw [List.nil_append, splitAll_cons, if_pos hsep, splitAll_nil, List.singleton_append]
  | cons c cs ih =>
    rw [List.cons_append, splitAll_cons, splitAll_cons, ih]
    split
    · rfl
    · obtain ⟨piece, pieces, h⟩ := List.exists_cons_of_ne_nil (splitAll_ne_nil p cs)
      rw [h]
      rfl

theorem splitAll_eq_singleton {w : List Char} (h : ∀ c ∈ w, p c = false) :
    splitAll p w = [w] := by
  induction w with
  | nil => rfl
  | cons c w ih =>
    rw [splitAll_cons, if_neg (by simp [h c List.mem_cons_self]),
      ih (fun c hc => h c (List.mem_cons_of_mem _ hc))]
    rfl

theorem splitAll_append (hsep : p sep = true) {w : List Char} (h : ∀ c ∈ w, p c = false)
    (rest : List Char) : splitAll p (w ++ sep :: rest) = w :: splitAll p rest := by
  rw [splitAll_append_cons hsep, splitAll_eq_singleton h, List.singleton_append]

theorem eq_false_of_mem_splitAll {cs w : List Char} (hw : w ∈ splitAll p cs) :
    ∀ c ∈ w, p c = false := by
  induction cs generalizing w with
  | nil =>
    obtain rfl := List.mem_singleton.1 hw
    exact nofun
  | cons c cs ih =>
    rw [splitAll_cons] at hw
    split at hw
    · rcases List.mem_cons.1 hw with rfl | hw
      · exact nofun
      · exact ih hw
    · next hc =>
      obtain ⟨piece, pieces, h⟩ := List.exists_cons_of_ne_nil (splitAll_ne_nil p cs)
      rw [h, consFirst] at hw
      rcases List.mem_cons.1 hw with rfl | hw
      · intro d hd
        rcases List.mem_cons.1 hd with rfl | hd
        · exact Bool.eq_false_iff.2 hc
        · exact ih (h ▸ List.mem_cons_self) d hd
      · exact ih (h ▸ List.mem_cons_of_mem _ hw)

/-- A text is cut once at the first character of the class. -/
theorem splitFirst_append_cons (hsep : p sep = true) {w : List Char} (h : ∀ c ∈ w, p c = false)
    (rest : List Char) : splitFirst p (w ++ sep :: rest) = some (w, rest) := by
  have hw : ∀ c ∈ w, (!p c) = true := fun c hc => by rw [h c hc, Bool.not_false]
  rw [splitFirst, List.dropWhile_append_of_pos hw, List.takeWhile_append_of_pos hw]
  simp [hsep]

theorem splitFirst_of_free {cs : List Char} (h : ∀ c ∈ cs, p c = false) : splitFirst p cs = none := by
  have hcs : ∀ c ∈ cs, (!p c) = true := fun c hc => by rw [h c hc, Bool.not_false]
  rw [splitFirst, List.dropWhile_eq_nil_iff.2 hcs]

/-- A text has no character of the class, or there is a first one. -/
theorem free_or_cut (p : Char → Bool) (cs : List Char) :
    (∀ c ∈ cs, p c = false) ∨
      ∃ w sep rest, cs = w ++ sep :: rest ∧ (∀ c ∈ w, p c = false) ∧ p sep = true := by
  induction cs with
  | nil => exact .inl nofun
  | cons c cs ih =>
    cases hc : p c with
    | true => exact .inr ⟨[], c, cs, rfl, nofun, hc⟩
    | false =>
      rcases ih with hfree | ⟨w, sep, rest, rfl, hw, hsep⟩
      · exact .inl (List.forall_mem_cons.2 ⟨hc, hfree⟩)
      · exact .inr ⟨c :: w, sep, rest, rfl, List.forall_mem_cons.2 ⟨hc, hw⟩, hsep⟩

end Class

section Separator

variable {sep : Char} {cs : List Char} {pieces : List (List Char)}

theorem beq_eq_false_of_notMem {w : List Char} (h : sep ∉ w) : ∀ c ∈ w, (c == sep) = false :=
  fun _ hc => beq_eq_false_iff_ne.2 (ne_of_mem_of_not_mem hc h)

/-- Joined texts are split as each of them is. -/
theorem splitAll_intercalate (w : List Char) (ws : List (List Char)) :
    splitAll (· == sep) (List.intercalate [sep] (w :: ws)) =
      (w :: ws).flatMap (splitAll (· == sep)) := by
  induction ws generalizing w with
  | nil => rw [List.intercalate_singleton, List.flatMap_singleton]
  | cons v ws ih =>
    rw [List.intercalate_cons_cons, List.append_assoc, List.singleton_append,
      splitAll_append_cons (p := (· == sep)) (beq_self_eq_true sep), ih, ← List.flatMap_cons]

theorem Pieces.eq_splitAll (h : Pieces sep cs pieces) : splitAll (· == sep) cs = pieces := by
  obtain ⟨hne, hfree, rfl⟩ := h
  obtain ⟨w, ws, rfl⟩ := List.exists_cons_of_ne_nil hne
  rw [splitAll_intercalate]
  have hself : ∀ v ∈ w :: ws, splitAll (· == sep) v = [v] := fun v hv =>
    splitAll_eq_singleton (beq_eq_false_of_notMem (hfree v hv))
  rw [List.flatMap_def, List.map_congr_left hself, ← List.flatMap_def, List.flatMap_singleton']

theorem pieces_splitAll (sep : Char) (cs : List Char) : Pieces sep cs (splitAll (· == sep) cs) where
  ne_nil := splitAll_ne_nil _ cs
  free _ hw hsep := absurd (eq_false_of_mem_splitAll hw sep hsep) (by simp)
  joined := intercalate_splitAll sep cs

theorem splitAll_eq_iff : splitAll (· == sep) cs = pieces ↔ Pieces sep cs pieces :=
  ⟨fun h => h ▸ pieces_splitAll sep cs, Pieces.eq_splitAll⟩

/-- A text without the separator goes in front of the first piece. -/
theorem splitAll_append_of_notMem {w l : List Char} {ls : List (List Char)} (h : sep ∉ w)
    (hcs : splitAll (· == sep) cs = l :: ls) : splitAll (· == sep) (w ++ cs) = (w ++ l) :: ls := by
  induction w with
  | nil => exact hcs
  | cons c w ih =>
    obtain ⟨hc, hw⟩ := not_or.1 (mt List.mem_cons.2 h)
    rw [List.cons_append, splitAll_cons, if_neg (by simpa using Ne.symm hc), ih hw]
    rfl

theorem splitAll_eq_singleton_iff : splitAll (· == sep) cs = [cs] ↔ sep ∉ cs := by
  refine ⟨fun h => ?_, fun h => splitAll_eq_singleton (beq_eq_false_of_notMem h)⟩
  exact (pieces_splitAll sep cs).free cs (h ▸ List.mem_singleton_self cs)

/-- A text is cut once at the first separator in it. -/
theorem splitFirst_append {w : List Char} (h : sep ∉ w) (rest : List Char) :
    splitFirst (· == sep) (w ++ sep :: rest) = some (w, rest) :=
  splitFirst_append_cons (p := (· == sep)) (beq_self_eq_true sep) (beq_eq_false_of_notMem h) rest

theorem splitFirst_eq_none (h : sep ∉ cs) : splitFirst (· == sep) cs = none :=
  splitFirst_of_free (beq_eq_false_of_notMem h)

end Separator

/-! ### Piece by piece -/

theorem mapM_eq_some_iff {α β : Type} {f : α → Option β} {xs : List α} {ys : List β} :
    xs.mapM f = some ys ↔ List.Forall₂ (fun x y => f x = some y) xs ys := by
  induction xs generalizing ys with
  | nil => simp [eq_comm]
  | cons x xs ih =>
    rw [List.mapM_cons, List.forall₂_cons_left_iff, Option.bind_eq_bind, Option.bind_eq_some_iff]
    refine exists_congr fun y => ?_
    simp only [Option.bind_eq_bind, Option.bind_eq_some_iff, Option.pure_def, Option.some.injEq, ih,
      eq_comm (a := ys)]
    exact ⟨fun ⟨hy, ys, hys, h⟩ => ⟨ys, hy, hys, h⟩, fun ⟨ys, hy, hys, h⟩ => ⟨hy, ys, hys, h⟩⟩

end Switchyard.Text
