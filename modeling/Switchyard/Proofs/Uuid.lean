import Mathlib.Tactic.Tauto
import Switchyard.Uuid

/-!
# Spellings of a UUID

`Spells` names the accepted forms of 32 hexadecimal digits, and `parse?_eq_some_iff` says that a text
is accepted exactly when it is one of them, for the bytes of its digits. So no accepted text has
another character than those digits and the few that a form adds.
-/

namespace Switchyard.Uuid

/-- Five groups of digits with a hyphen between any two. -/
inductive Hyphenated : List Char → List Char → Prop
  | groups {g₁ g₂ g₃ g₄ g₅ : List Char} : g₁.length = 8 → g₂.length = 4 → g₃.length = 4 →
      g₄.length = 4 → g₅.length = 12 →
      Hyphenated (g₁ ++ g₂ ++ g₃ ++ g₄ ++ g₅)
        (g₁ ++ '-' :: (g₂ ++ '-' :: (g₃ ++ '-' :: (g₄ ++ '-' :: g₅))))

/-- The forms that may be written. -/
inductive Spells (digits : List Char) : List Char → Prop
  | plain : Spells digits digits
  | hyphenated {cs : List Char} : Hyphenated digits cs → Spells digits cs
  | braced {cs : List Char} : Hyphenated digits cs → Spells digits ('\x7b' :: cs ++ ['\x7d'])
  | urn {tag cs : List Char} : Text.sameIgnoringCase "urn:uuid:".toList tag →
      Hyphenated digits cs → Spells digits (tag ++ cs)

variable {digits cs : List Char} {bs : Bytes}

theorem Hyphenated.length (h : Hyphenated digits cs) : cs.length = 36 := by
  obtain ⟨h₁, h₂, h₃, h₄, h₅⟩ := h
  simp [h₁, h₂, h₃, h₄, h₅]

/-! ### What the reader accepts -/

/-- A group ends where the character behind it is found. -/
theorem drop_eq_take_cons_drop {k n : Nat} {c : Char} (h : cs[k + n]? = some c) :
    cs.drop k = (cs.drop k).take n ++ c :: cs.drop (k + n + 1) := by
  obtain ⟨hlt, rfl⟩ := List.getElem?_eq_some_iff.1 h
  rw [← List.drop_eq_getElem_cons hlt, ← List.drop_drop, List.take_append_drop]

theorem parseHyphenated?_eq_some_iff :
    parseHyphenated? cs = some bs ↔
      ∃ digits, Hyphenated digits cs ∧ parseDigits? digits = some bs := by
  unfold parseHyphenated?
  constructor
  · intro h
    split at h
    · next hshape =>
      obtain ⟨hlen, h₈, h₁₃, h₁₈, h₂₃⟩ := hshape
      refine ⟨_, ?_, h⟩
      have e₁ : cs = cs.take 8 ++ '-' :: cs.drop 9 := drop_eq_take_cons_drop (k := 0) h₈
      have e₂ : cs.drop 9 = _ := drop_eq_take_cons_drop (n := 4) h₁₃
      have e₃ : cs.drop 14 = _ := drop_eq_take_cons_drop (n := 4) h₁₈
      have e₄ : cs.drop 19 = _ := drop_eq_take_cons_drop (n := 4) h₂₃
      have hgroups := @Hyphenated.groups (cs.take 8) ((cs.drop 9).take 4) ((cs.drop 14).take 4)
        ((cs.drop 19).take 4) (cs.drop 24)
        (by simp [hlen]) (by simp [hlen]) (by simp [hlen]) (by simp [hlen]) (by simp [hlen])
      rwa [← e₄, ← e₃, ← e₂, ← e₁] at hgroups
    · cases h
  · rintro ⟨_, ⟨h₁, h₂, h₃, h₄, h₅⟩, h⟩
    simpa [h₁, h₂, h₃, h₄, h₅, List.take_append, List.drop_append, List.getElem?_append,
      List.take_of_length_le, List.drop_of_length_le] using h

section Wrapping

variable {w w' : List Char × List Char} {front inner : List Char}

theorem unwrap?_eq_some (h : unwrap? w cs = some inner) :
    ∃ front, cs = front ++ inner ++ w.2 ∧ Text.sameIgnoringCase w.1 front := by
  unfold unwrap? at h
  split at h
  · next hshape =>
    obtain ⟨hlen, hsame, back, rfl⟩ := hshape
    cases h
    have hback : back.length = w.1.length + 36 := by
      rw [List.length_append] at hlen
      omega
    have hrest : (back.drop w.1.length).length = 36 := by
      rw [List.length_drop]
      omega
    refine ⟨_, ?_, hsame⟩
    rw [List.take_append_of_le_length (by omega), List.drop_append_of_le_length (by omega),
      List.take_left' hrest, List.take_append_drop]
  · cases h

theorem length_of_unwrap? (h : unwrap? w cs = some inner) :
    cs.length = w.1.length + 36 + w.2.length := by
  unfold unwrap? at h
  split at h
  · next hshape => exact hshape.1
  · cases h

theorem length_of_sameIgnoringCase (h : Text.sameIgnoringCase w.1 front) :
    front.length = w.1.length := by
  have hlen := congrArg List.length (eq_of_beq h)
  rw [Text.lower, Text.lower, List.length_map, List.length_map] at hlen
  exact hlen.symm

theorem unwrap?_append (hsame : Text.sameIgnoringCase w.1 front) (hinner : inner.length = 36) :
    unwrap? w (front ++ inner ++ w.2) = some inner := by
  have hfront := length_of_sameIgnoringCase hsame
  unfold unwrap?
  rw [List.append_assoc, List.take_left' hfront, List.drop_left' hfront, List.take_left' hinner,
    ← List.append_assoc]
  refine if_pos ⟨?_, hsame, List.suffix_append _ _⟩
  rw [List.length_append, List.length_append, hfront, hinner]

/-- No other character has the brace for its lowercase. -/
theorem eq_brace_of_toLower {c : Char} (h : c.toLower = '\x7b') : c = '\x7b' := by
  unfold Char.toLower at h
  split at h
  · next hupper =>
    have hle : c.toNat ≤ 90 := UInt32.le_iff_toNat_le.1 hupper.2
    have hsum : (c.toNat + 32) % 4294967296 = 123 := by simpa using congrArg Char.toNat h
    omega
  · exact h

/-- The forms with hyphens are the wrappings of it. -/
theorem spells_iff :
    Spells digits cs ↔ digits = cs ∨ ∃ w ∈ wrappings, ∃ front inner,
      Text.sameIgnoringCase w.1 front ∧ Hyphenated digits inner ∧ cs = front ++ inner ++ w.2 := by
  constructor
  · intro h
    cases h with
    | plain => exact .inl rfl
    | hyphenated h => exact .inr ⟨([], []), by simp [wrappings], [], _, rfl, h, by simp⟩
    | braced h =>
      exact .inr ⟨(['\x7b'], ['\x7d']), by simp [wrappings], ['\x7b'], _, rfl, h, by simp⟩
    | urn htag h => exact .inr ⟨("urn:uuid:".toList, []), by simp [wrappings], _, _, htag, h, by simp⟩
  · rintro (rfl | ⟨w, hw, front, inner, hsame, h, rfl⟩)
    · exact .plain
    · have hfront := length_of_sameIgnoringCase hsame
      simp only [wrappings, List.mem_cons, List.not_mem_nil, or_false] at hw
      rcases hw with rfl | rfl | rfl
      · obtain rfl := List.eq_nil_of_length_eq_zero hfront
        simpa using Spells.hyphenated h
      · obtain ⟨c, rfl⟩ := List.length_eq_one_iff.1 hfront
        obtain rfl : c = '\x7b' := eq_brace_of_toLower (List.cons.inj (eq_of_beq hsame)).1.symm
        exact .braced h
      · simpa using Spells.urn hsame h

/-- The length of a text tells the wrapping. -/
theorem eq_of_length (hw : w ∈ wrappings) (hw' : w' ∈ wrappings)
    (h : w.1.length + w.2.length = w'.1.length + w'.2.length) : w = w' := by
  simp only [wrappings, List.mem_cons, List.not_mem_nil, or_false] at hw hw'
  rcases hw with rfl | rfl | rfl <;> rcases hw' with rfl | rfl | rfl <;> first | rfl | cases h

end Wrapping

/-- A text is accepted exactly when it is a form of digits, for the bytes of those. -/
theorem parse?_eq_some_iff :
    parse? cs = some bs ↔ ∃ digits, parseDigits? digits = some bs ∧ Spells digits cs := by
  simp only [spells_iff]
  unfold parse?
  rw [Option.or_eq_some_iff]
  constructor
  · rintro (h | ⟨-, h⟩)
    · exact ⟨cs, h, .inl rfl⟩
    · obtain ⟨w, hw, h⟩ := List.exists_of_findSome?_eq_some h
      obtain ⟨inner, hunwrap, h⟩ := Option.bind_eq_some_iff.1 h
      obtain ⟨digits, hhyphens, h⟩ := parseHyphenated?_eq_some_iff.1 h
      obtain ⟨front, hcs, hsame⟩ := unwrap?_eq_some hunwrap
      exact ⟨digits, h, .inr ⟨w, hw, front, inner, hsame, hhyphens, hcs⟩⟩
  · rintro ⟨digits, h, rfl | ⟨w, hw, front, inner, hsame, hhyphens, rfl⟩⟩
    · exact .inl h
    · have hfits : (unwrap? w (front ++ inner ++ w.2)).bind parseHyphenated? = some bs := by
        rw [unwrap?_append hsame hhyphens.length]
        exact parseHyphenated?_eq_some_iff.2 ⟨digits, hhyphens, h⟩
      generalize hcs : front ++ inner ++ w.2 = cs at hfits
      have hlen : cs.length = w.1.length + 36 + w.2.length := by
        rw [← hcs, List.length_append, List.length_append, length_of_sameIgnoringCase hsame,
          hhyphens.length]
      have hdigits : parseDigits? cs = none := if_neg (by omega)
      refine .inr ⟨hdigits, ?_⟩
      -- Some wrapping is found, and it can be no other one.
      have hsome : (wrappings.findSome? fun w => (unwrap? w cs).bind parseHyphenated?).isSome :=
        List.findSome?_isSome_iff.2 ⟨w, hw, by rw [hfits]; rfl⟩
      obtain ⟨bs', hfound⟩ := Option.isSome_iff_exists.1 hsome
      obtain ⟨w', hw', h'⟩ := List.exists_of_findSome?_eq_some hfound
      obtain ⟨inner', hunwrap, -⟩ := Option.bind_eq_some_iff.1 h'
      obtain rfl : w' = w := eq_of_length hw' hw (by rw [length_of_unwrap? hunwrap] at hlen; omega)
      rw [hfound, ← h', hfits]

/-! ### What an accepted text is made of -/

/-- An accepted text has at least the digits. -/
theorem length_le_of_parse? (h : parse? cs = some bs) : 32 ≤ cs.length := by
  obtain ⟨digits, hdigits, hspells⟩ := parse?_eq_some_iff.1 h
  cases hspells with
  | plain =>
    unfold parseDigits? at hdigits
    split at hdigits
    · next hlen => exact Nat.le_of_eq hlen.symm
    · cases hdigits
  | hyphenated hi =>
    rw [hi.length]
    decide
  | braced hi =>
    rw [List.length_append, List.length_cons, hi.length]
    decide
  | urn htag hi =>
    rw [List.length_append, hi.length]
    omega

theorem isSome_value?_of_mem {acc : Bytes} {c : Char} (h : Hex.decodeFrom acc digits = some bs)
    (hc : c ∈ digits) : (Hex.value? c).isSome := by
  fun_induction Hex.decodeFrom acc digits with
  | case1 acc => cases hc
  | case2 => cases h
  | case3 acc hi lo rest b hb ih =>
    unfold Hex.byte? at hb
    obtain ⟨_, hhi, hb⟩ := Option.bind_eq_some_iff.1 hb
    obtain ⟨_, hlo, -⟩ := Option.bind_eq_some_iff.1 hb
    rcases List.mem_cons.1 hc with rfl | hc
    · rw [hhi]
      rfl
    rcases List.mem_cons.1 hc with rfl | hc
    · rw [hlo]
      rfl
    · exact ih h hc
  | case4 => cases h

theorem isSome_value?_of_parseDigits? {c : Char} (h : parseDigits? digits = some bs)
    (hc : c ∈ digits) : (Hex.value? c).isSome := by
  unfold parseDigits? at h
  split at h
  · exact isSome_value?_of_mem h hc
  · cases h

theorem Hyphenated.mem {c : Char} (h : Hyphenated digits cs) (hc : c ∈ cs) :
    c = '-' ∨ c ∈ digits := by
  cases h
  simp only [List.mem_append, List.mem_cons] at hc ⊢
  tauto

/-- A digit, or what a form adds. -/
theorem mem_of_parse? {c : Char} (h : parse? cs = some bs) (hc : c ∈ cs) :
    (Hex.value? c).isSome ∨ c ∈ ['-', '\x7b', '\x7d'] ∨ c.toLower ∈ "urn:uuid:".toList := by
  obtain ⟨digits, hdigits, hspells⟩ := parse?_eq_some_iff.1 h
  have hinner {inner : List Char} (hi : Hyphenated digits inner) (hc : c ∈ inner) :
      (Hex.value? c).isSome ∨ c ∈ ['-', '\x7b', '\x7d'] ∨ c.toLower ∈ "urn:uuid:".toList := by
    rcases hi.mem hc with rfl | hc
    · exact .inr (.inl List.mem_cons_self)
    · exact .inl (isSome_value?_of_parseDigits? hdigits hc)
  cases hspells with
  | plain => exact .inl (isSome_value?_of_parseDigits? hdigits hc)
  | hyphenated hi => exact hinner hi hc
  | braced hi =>
    simp only [List.cons_append, List.mem_cons, List.mem_append, List.not_mem_nil, or_false] at hc
    rcases hc with rfl | hc | rfl
    · exact .inr (.inl (by decide))
    · exact hinner hi hc
    · exact .inr (.inl (by decide))
  | @urn tag _ htag hi =>
    rcases List.mem_append.1 hc with hc | hc
    · have hlower : c.toLower ∈ Text.lower tag := List.mem_map.2 ⟨c, hc, rfl⟩
      rw [← eq_of_beq htag] at hlower
      exact .inr (.inr hlower)
    · exact hinner hi hc

/-- The character that ends the user of a link is in no accepted text. -/
theorem at_not_mem (h : parse? cs = some bs) : '@' ∉ cs := fun hmem =>
  absurd (mem_of_parse? h hmem) (by decide)

/-- Nor is the end of a line. -/
theorem newline_not_mem (h : parse? cs = some bs) : '\n' ∉ cs := fun hmem =>
  absurd (mem_of_parse? h hmem) (by decide)

end Switchyard.Uuid
