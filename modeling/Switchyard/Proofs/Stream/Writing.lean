import Switchyard.Proofs.Stream.Acts
import Switchyard.Stream.WriteAll
import Switchyard.WebSocket.InflateStream

/-!
# What was written

A stream records what is written on it (`Records`): a call adds all of its bytes or fails, and reads add
nothing. So do streams with bytes put back. Writing everything then is one call, and reading with
compression writes nothing.
-/

namespace Switchyard

section

variable {σ : Type} [ByteStream σ] {bs : Bytes} {s s' : σ}

/-- A call that takes all bytes is the only one. -/
theorem writeAll_of_ready (hne : bs ≠ [])
    (hw : ByteStream.write bs s = (.ready bs.length, s')) : writeAll bs s = (.done, s') := by
  obtain ⟨b, bs, rfl⟩ := List.exists_cons_of_ne_nil hne
  have hsome : writeSome (b :: bs) s = (.ready [], s') := by
    rw [writeSome, hw]
    simp
  rw [writeAll.eq_def]
  dsimp only
  split
  · next h => cases hsome.symm.trans h
  · next h => cases hsome.symm.trans h
  · next h =>
    cases hsome.symm.trans h
    rw [writeAll]

theorem writeAll_of_failed {e : StreamError} (hne : bs ≠ [])
    (hw : ByteStream.write bs s = (.failed e, s')) : writeAll bs s = (.failed e, s') := by
  obtain ⟨b, bs, rfl⟩ := List.exists_cons_of_ne_nil hne
  have hsome : writeSome (b :: bs) s = (.failed e, s') := by rw [writeSome, hw]
  rw [writeAll.eq_def]
  dsimp only
  split
  · next h => cases hsome.symm.trans h
  · next h =>
    cases hsome.symm.trans h
    rfl
  · next h => cases hsome.symm.trans h

end

namespace ByteStream

variable {σ : Type} [ByteStream σ]

/-- A view of what was written. -/
structure Records (view : σ → Bytes) : Prop where
  read : ∀ n s, view (read n s).2 = view s
  write : ∀ bs s, (∃ s', write bs s = (.ready bs.length, s') ∧ view s' = view s ++ bs) ∨
    ∃ e s', write bs s = (.failed e, s') ∧ view s' = view s

namespace Records

variable {view : σ → Bytes} (h : Records view)

include h

theorem prefixed : Records fun p : PrefixedStream σ => view p.inner where
  read n p := by
    simp only [ByteStream.read, PrefixedStream.read]
    split
    · exact h.read n p.inner
    · rfl
  write bs p := by
    rcases h.write bs p.inner with ⟨s', hw, hview⟩ | ⟨e, s', hw, hview⟩
    · exact .inl ⟨⟨p.front, s'⟩, by simp [ByteStream.write, PrefixedStream.pass, hw], hview⟩
    · exact .inr ⟨e, ⟨p.front, s'⟩, by simp [ByteStream.write, PrefixedStream.pass, hw], hview⟩

/-- Either all bytes are written, or none. -/
theorem writeAll (bs : Bytes) (s : σ) :
    view (writeAll bs s).2 = view s ++ bs ∨ view (writeAll bs s).2 = view s := by
  by_cases hne : bs = []
  · subst hne
    rw [Switchyard.writeAll]
    exact .inr rfl
  · rcases h.write bs s with ⟨s', hw, hview⟩ | ⟨e, s', hw, hview⟩
    · rw [writeAll_of_ready hne hw]
      exact .inl hview
    · rw [writeAll_of_failed hne hw]
      exact .inr hview

theorem readExpanded (n : Nat) (x : Expander) (s : InflateStream σ) :
    view (s.readExpanded n x).2.inner = view s.inner := by
  fun_induction InflateStream.readExpanded n x s with
  | case1 | case2 => rfl
  | case3 x s _ _ inner hr | case4 x s _ _ _ inner hr | case5 x s _ _ inner hr
  | case6 x s _ _ _ _ inner hr _ _ ha =>
    have hread := h.read InflateStream.chunkSize s.inner
    rw [hr] at hread
    first
      | exact hread
      | exact congrArg (fun p => p.2.inner) ha ▸ hread
  | case7 x s _ _ b rest inner hr t ha ih =>
    have hread := h.read InflateStream.chunkSize s.inner
    rw [hr] at hread
    have hinner : inner = t.inner := congrArg (fun p => p.2.inner) ha
    exact ih.trans (hinner ▸ hread)

theorem readInflated (n : Nat) (s : InflateStream σ) :
    view (s.read n).2.inner = view s.inner := by
  unfold InflateStream.read
  split
  · exact h.readExpanded n _ s
  · exact h.read n s.inner

end Records

end ByteStream

/-! ### Compression stays on or off -/

namespace InflateStream

variable {σ : Type} [ByteStream σ]

theorem isSome_expander_readExpanded (n : Nat) (x : Expander) {s : InflateStream σ}
    (h : s.expander.isSome = true) : (s.readExpanded n x).2.expander.isSome = true := by
  fun_induction readExpanded n x s with
  | case1 | case2 | case3 | case4 | case5 => exact h
  | case6 x s _ _ _ _ inner _ _ t ha => exact congrArg (fun p => p.2.expander.isSome) ha ▸ rfl
  | case7 x s _ _ b rest inner _ t ha ih =>
    exact ih (congrArg (fun p => p.2.expander.isSome) ha ▸ rfl)

theorem isSome_expander_read (n : Nat) (s : InflateStream σ) :
    (s.read n).2.expander.isSome = s.expander.isSome := by
  cases hx : s.expander with
  | none =>
    unfold read
    rw [hx]
  | some x =>
    unfold read
    rw [hx]
    exact isSome_expander_readExpanded n x (hx ▸ rfl)

end InflateStream

end Switchyard
