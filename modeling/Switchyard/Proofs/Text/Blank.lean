import Mathlib.Data.List.TakeWhile
import Switchyard.Text.Blank

/-!
# Trimmed texts

What trimming takes off: nothing of a text whose ends are not blank, and all white space around a text
(`trim_append`). What it leaves has no blank in front, so a text that begins otherwise than its
trimmed form begins with a blank (`take_eq_take_trim_iff`).
-/

namespace Switchyard.Text

variable {p : Char → Bool} {cs : List Char}

theorem dropWhile_eq_self (h : ∀ c ∈ cs.head?, p c = false) : cs.dropWhile p = cs := by
  cases cs with
  | nil => rfl
  | cons c cs => exact List.dropWhile_cons_of_neg (by simp [h c rfl])

theorem trimBoth_eq_self (hh : ∀ c ∈ cs.head?, p c = false)
    (hl : ∀ c ∈ cs.getLast?, p c = false) : trimBoth p cs = cs := by
  rw [trimBoth, dropWhile_eq_self hh, dropWhile_eq_self (by rwa [List.head?_reverse]),
    List.reverse_reverse]

/-- Characters of the class at the ends do not count. -/
theorem trimBoth_append {w w' : List Char} (h : ∀ c ∈ w, p c = true) (h' : ∀ c ∈ w', p c = true)
    (cs : List Char) : trimBoth p (w ++ cs ++ w') = trimBoth p cs := by
  unfold trimBoth
  rw [List.append_assoc, List.dropWhile_append_of_pos h, List.dropWhile_append]
  split
  · next hempty =>
    rw [List.isEmpty_iff.1 hempty, List.dropWhile_eq_nil_iff.2 h']
  · rw [List.reverse_append, List.dropWhile_append_of_pos fun c hc => h' c (List.mem_reverse.1 hc)]

/-- One character is taken off the end. -/
theorem trimBoth_concat {c : Char} (h : ∀ c ∈ cs, p c = false) (hc : p c = true) :
    trimBoth p (cs ++ [c]) = cs := by
  have hself : trimBoth p cs = cs :=
    trimBoth_eq_self (fun c hc => h c (List.mem_of_mem_head? hc))
      fun c hc => h c (List.mem_of_mem_getLast? hc)
  have hcut : trimBoth p ([] ++ cs ++ [c]) = trimBoth p cs :=
    trimBoth_append (by simp) (by simpa using hc) cs
  exact hcut.trans hself

theorem prefix_trimBoth (p : Char → Bool) (cs : List Char) :
    trimBoth p cs <+: cs.dropWhile p := by
  have hsuffix := List.dropWhile_suffix (l := (cs.dropWhile p).reverse) p
  rw [← List.reverse_prefix, List.reverse_reverse] at hsuffix
  exact hsuffix

theorem head?_trimBoth {c : Char} (h : c ∈ (trimBoth p cs).head?) : p c = false := by
  obtain ⟨rest, hrest⟩ := prefix_trimBoth p cs
  have hfirst := List.head?_dropWhile_not p cs
  rw [← hrest, List.head?_append, Option.mem_def.1 h, Option.some_or] at hfirst
  exact hfirst

theorem trim_append {w w' : List Char} (h : ∀ c ∈ w, isBlank c = true)
    (h' : ∀ c ∈ w', isBlank c = true) (cs : List Char) : trim (w ++ cs ++ w') = trim cs :=
  trimBoth_append h h' cs

/-- Around a character that is no blank the two sides are trimmed apart. -/
theorem trim_append_cons {c : Char} (hc : isBlank c = false) (front back : List Char) :
    trim (front ++ c :: back) =
      front.dropWhile isBlank ++ c :: (back.reverse.dropWhile isBlank).reverse := by
  have hdrop : (front ++ c :: back).dropWhile isBlank = front.dropWhile isBlank ++ c :: back := by
    rw [List.dropWhile_append]
    split
    · next hnil =>
      rw [List.isEmpty_iff.1 hnil, List.nil_append]
      exact List.dropWhile_cons_of_neg (by simp [hc])
    · rfl
  have hend : (c :: back).reverse.dropWhile isBlank = back.reverse.dropWhile isBlank ++ [c] := by
    rw [List.reverse_cons, List.dropWhile_append]
    split
    · next hnil =>
      rw [List.isEmpty_iff.1 hnil, List.nil_append]
      exact List.dropWhile_cons_of_neg (by simp [hc])
    · rfl
  rw [trim, trimBoth, hdrop, List.reverse_append, List.dropWhile_append, hend]
  simp

theorem trim_dropWhile (cs : List Char) : trim (cs.dropWhile isBlank) = trim cs := by
  have hsplit : trim (cs.takeWhile isBlank ++ cs.dropWhile isBlank ++ []) =
      trim (cs.dropWhile isBlank) :=
    trim_append (fun c hc => List.mem_takeWhile_imp hc) (by simp) (cs.dropWhile isBlank)
  rw [List.append_nil, List.takeWhile_append_dropWhile] at hsplit
  exact hsplit.symm

theorem trim_reverse_dropWhile (cs : List Char) :
    trim (cs.reverse.dropWhile isBlank).reverse = trim cs := by
  have hsplit : trim ([] ++ (cs.reverse.dropWhile isBlank).reverse ++
      (cs.reverse.takeWhile isBlank).reverse) = trim (cs.reverse.dropWhile isBlank).reverse :=
    trim_append (by simp) (fun c hc => List.mem_takeWhile_imp (List.mem_reverse.1 hc)) _
  rw [List.nil_append, ← List.reverse_append, List.takeWhile_append_dropWhile,
    List.reverse_reverse] at hsplit
  exact hsplit.symm

theorem length_trim_le (cs : List Char) : (trim cs).length ≤ cs.length :=
  ((prefix_trimBoth isBlank cs).length_le).trans (List.length_dropWhile_le isBlank cs)

/-- A text begins as its trimmed form does exactly when it does not begin with a blank. -/
theorem take_eq_take_trim_iff {n : Nat} (hn : 0 < n) (hlen : n ≤ (trim cs).length) :
    cs.take n = (trim cs).take n ↔ ∀ c ∈ cs.head?, isBlank c = false := by
  constructor
  · intro h c hc
    have hhead : (cs.take n).head? = ((trim cs).take n).head? := congrArg List.head? h
    rw [List.head?_take, List.head?_take, if_neg hn.ne', if_neg hn.ne'] at hhead
    exact head?_trimBoth (hhead ▸ hc)
  · intro h
    obtain ⟨rest, hrest⟩ := prefix_trimBoth isBlank cs
    rw [dropWhile_eq_self h] at hrest
    have htake : (trim cs ++ rest).take n = (trim cs).take n := List.take_append_of_le_length hlen
    exact (congrArg (List.take n) hrest.symm).trans htake

end Switchyard.Text
