/-!
# Measures

A step that does not raise the first part of a pair and lowers the second one lowers the pair. This is
what ends recursions that read from a stream and from what was read of it.
-/

namespace Switchyard.Measure

theorem lex_of_le {β : Type} {r : β → β → Prop} {a a' : Nat} {b b' : β} (ha : a' ≤ a)
    (hb : r b' b) : Prod.Lex (· < ·) r (a', b') (a, b) := by
  rcases Nat.lt_or_eq_of_le ha with h | rfl
  · exact .left _ _ h
  · exact .right _ hb

theorem fst_le_of_lex {β : Type} {r : β → β → Prop} {p q : Nat × β}
    (h : Prod.Lex (· < ·) r p q) : p.1 ≤ q.1 := by
  cases h with
  | left _ _ h => exact Nat.le_of_lt h
  | right _ _ => exact Nat.le_refl _

/-- A step down behind one that lowers the first part. -/
theorem lex_of_lex_of_lt {β : Type} {r : β → β → Prop} {p q t : Nat × β}
    (h : Prod.Lex (· < ·) r p q) (hlt : q.1 < t.1) : Prod.Lex (· < ·) r p t :=
  Prod.lex_def.2 (.inl (Nat.lt_of_le_of_lt (fst_le_of_lex h) hlt))

/-- A pair that goes down takes whatever stands behind it along. -/
theorem lex_append {γ : Type} {t : γ → γ → Prop} {p q : Nat × Nat} {c c' : γ}
    (h : Prod.Lex (· < ·) (· < ·) p q) :
    Prod.Lex (· < ·) (Prod.Lex (· < ·) t) (p.1, p.2, c') (q.1, q.2, c) := by
  rcases Prod.lex_def.1 h with h | ⟨h₁, h₂⟩
  · exact .left _ _ h
  · exact lex_of_le (Nat.le_of_eq h₁) (.left _ _ h₂)

end Switchyard.Measure
