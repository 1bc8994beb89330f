import Switchyard.Http.Response
import Switchyard.Proofs.Text.Blank
import Switchyard.Proofs.Text.Numeral

/-!
# Plain texts

A text is plain if it can stand in the line of a head and is found there again: all its characters
are visible, and no blank is at either end of it.
-/

namespace Switchyard.Text

/-- A visible character of ASCII, or the space. -/
def IsPrint (c : Char) : Prop :=
  0x20 ≤ c.toNat ∧ c.toNat < 0x7F

instance : DecidablePred IsPrint := fun c =>
  inferInstanceAs (Decidable (0x20 ≤ c.toNat ∧ c.toNat < 0x7F))

theorem isPrint_of_all {cs : List Char} (h : cs.all fun c => IsPrint c) : ∀ c ∈ cs, IsPrint c :=
  fun c hc => of_decide_eq_true (List.all_eq_true.1 h c hc)

/-- A text that stands for itself in the line of a head. -/
structure IsPlain (cs : List Char) : Prop where
  print : ∀ c ∈ cs, IsPrint c
  head : ∀ c ∈ cs.head?, isBlank c = false
  last : ∀ c ∈ cs.getLast?, isBlank c = false

theorem IsPlain.trim_eq {cs : List Char} (h : IsPlain cs) : trim cs = cs :=
  trimBoth_eq_self h.head h.last

/-- The blank in front of a value is not part of it. -/
theorem IsPlain.trim_space {cs : List Char} (h : IsPlain cs) : trim (' ' :: cs) = cs := by
  have hblank : isBlank ' ' = true := rfl
  have htrim := h.trim_eq
  unfold trim trimBoth at htrim ⊢
  rwa [List.dropWhile_cons_of_pos hblank]

/-! ### Words -/

/-- A text without blanks that is not empty. -/
structure IsWord (cs : List Char) : Prop where
  ne_nil : cs ≠ []
  graphic : ∀ c ∈ cs, 0x20 < c.toNat ∧ c.toNat < 0x7F

instance : DecidablePred IsWord := fun cs =>
  decidable_of_iff (cs ≠ [] ∧ cs.all fun c => 0x20 < c.toNat ∧ c.toNat < 0x7F)
    ⟨fun h => ⟨h.1, fun c hc => of_decide_eq_true (List.all_eq_true.1 h.2 c hc)⟩,
      fun h => ⟨h.1, List.all_eq_true.2 fun c hc => decide_eq_true (h.2 c hc)⟩⟩

theorem isBlank_of_graphic {c : Char} (h : 0x20 < c.toNat ∧ c.toNat < 0x7F) :
    isBlank c = false := by
  obtain ⟨hlo, hhi⟩ := h
  simp only [isBlank, Bool.or_eq_false_iff, Bool.and_eq_false_iff, decide_eq_false_iff_not,
    beq_eq_false_iff_ne]
  omega

theorem isPlain_of_graphic {cs : List Char} (h : ∀ c ∈ cs, 0x20 < c.toNat ∧ c.toNat < 0x7F) :
    IsPlain cs where
  print c hc := ⟨Nat.le_of_lt (h c hc).1, (h c hc).2⟩
  head c hc := isBlank_of_graphic (h c (List.mem_of_mem_head? hc))
  last c hc := isBlank_of_graphic (h c (List.mem_of_mem_getLast? hc))

theorem IsWord.isPlain {cs : List Char} (h : IsWord cs) : IsPlain cs :=
  isPlain_of_graphic h.graphic

theorem IsWord.append {cs cs' : List Char} (h : IsWord cs) (h' : IsWord cs') :
    IsWord (cs ++ cs') where
  ne_nil := by simp [h.ne_nil]
  graphic c hc := (List.mem_append.1 hc).elim (h.graphic c) (h'.graphic c)

theorem intercalate_ne_nil (sep : List Char) {w : List Char} (hw : w ≠ [])
    (words : List (List Char)) : List.intercalate sep (w :: words) ≠ [] := by
  cases words with
  | nil => rwa [List.intercalate_singleton]
  | cons w' words => simp [List.intercalate_cons_cons, hw]

theorem isPlain_intercalate {sep : List Char} (hsep : ∀ c ∈ sep, IsPrint c) :
    ∀ {words : List (List Char)}, (∀ w ∈ words, IsWord w) → IsPlain (List.intercalate sep words)
  | [], _ => ⟨nofun, nofun, nofun⟩
  | [w], h => by
    rw [List.intercalate_singleton]
    exact (h w List.mem_cons_self).isPlain
  | w :: w' :: words, h => by
    have hw := h w List.mem_cons_self
    have ih := isPlain_intercalate hsep (fun v hv => h v (List.mem_cons_of_mem w hv))
    rw [List.intercalate_cons_cons]
    refine ⟨fun c hc => ?_, fun c hc => ?_, fun c hc => ?_⟩
    · rcases List.mem_append.1 hc with hc | hc
      · rcases List.mem_append.1 hc with hc | hc
        · exact hw.isPlain.print c hc
        · exact hsep c hc
      · exact ih.print c hc
    · obtain ⟨b, bs, rfl⟩ := List.exists_cons_of_ne_nil hw.ne_nil
      exact hw.isPlain.head c hc
    · have hne := intercalate_ne_nil sep (h w' (by simp)).ne_nil words
      obtain ⟨b, hb⟩ := Option.isSome_iff_exists.1 (List.getLast?_isSome.2 hne)
      rw [List.getLast?_append, hb, Option.some_or] at hc
      exact ih.last c (hb ▸ hc)

/-! ### Numerals -/

theorem isWord_ofNat (n : Nat) : IsWord (Numeral.ofNat n) where
  ne_nil := Nat.toDigits_ne_nil
  graphic c hc := by
    have hd := Numeral.isDigit_of_mem_ofNat hc
    simp only [Char.isDigit, Bool.and_eq_true, decide_eq_true_eq] at hd
    have hlo : 48 ≤ c.toNat := UInt32.le_iff_toNat_le.1 hd.1
    have hhi : c.toNat ≤ 57 := UInt32.le_iff_toNat_le.1 hd.2
    omega

end Switchyard.Text
