/-!
# Splitting a text at separators

`splitAll p` cuts at every character of the class `p` and keeps the pieces, also empty ones, so a
text without a separator is one piece. `splitFirst` and `splitLast` cut once. The pieces joined
again by their separator are the text: `intercalate_splitAll`.
-/

namespace Switchyard.Text

/-- Puts `c` at the front of the first piece. -/
def consFirst (c : Char) : List (List Char) → List (List Char)
  | [] => [[c]]
  | piece :: pieces => (c :: piece) :: pieces

/-- The pieces between the characters of the class `p`. -/
def splitAll (p : Char → Bool) (cs : List Char) : List (List Char) :=
  cs.foldr (fun c pieces => if p c then [] :: pieces else consFirst c pieces) [[]]

@[simp] theorem splitAll_nil (p : Char → Bool) : splitAll p [] = [[]] := rfl

theorem splitAll_cons (p : Char → Bool) (c : Char) (cs : List Char) :
    splitAll p (c :: cs) =
      if p c then [] :: splitAll p cs else consFirst c (splitAll p cs) := rfl

theorem splitAll_ne_nil (p : Char → Bool) (cs : List Char) : splitAll p cs ≠ [] := by
  cases cs with
  | nil => simp
  | cons c cs =>
    rw [splitAll_cons]
    split
    · simp
    · cases splitAll p cs <;> simp [consFirst]

/-- The text before and after the first character of the class `p`. -/
def splitFirst (p : Char → Bool) (cs : List Char) : Option (List Char × List Char) :=
  match cs.dropWhile (fun c => !p c) with
  | [] => none
  | _ :: rest => some (cs.takeWhile (fun c => !p c), rest)

/-- The text before and after the last character of the class `p`. -/
def splitLast (p : Char → Bool) (cs : List Char) : Option (List Char × List Char) :=
  (splitFirst p cs.reverse).map fun (after, before) => (before.reverse, after.reverse)

/-- The pieces of `splitAll` at one separator, joined by it again, are the text. -/
theorem intercalate_splitAll (sep : Char) (cs : List Char) :
    List.intercalate [sep] (splitAll (· == sep) cs) = cs := by
  induction cs with
  | nil => simp [List.intercalate]
  | cons c cs ih =>
    rw [splitAll_cons]
    obtain ⟨piece, pieces, h⟩ := List.exists_cons_of_ne_nil (splitAll_ne_nil (· == sep) cs)
    rw [h] at ih ⊢
    by_cases hc : c = sep
    · subst hc
      simp only [beq_self_eq_true, if_true]
      cases pieces <;> simp_all [List.intercalate]
    · simp only [beq_iff_eq, hc, if_false, consFirst]
      cases pieces <;> simp_all [List.intercalate]

end Switchyard.Text
