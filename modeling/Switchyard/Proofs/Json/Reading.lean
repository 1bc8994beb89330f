import Mathlib.Data.List.TakeWhile
import Switchyard.Proofs.Json.Numbers

/-!
# Reading values and documents

Arrays and objects are read item by item. `step` is the step of both, and `Reads.closed` says what a
reader takes that goes on with it, whatever reads the items. So values are read right up to any depth
(`reads_value`), by induction on the depth, and the depth that a document is read to is enough: nothing
is nested deeper than it has characters. `parse?_eq_some_iff` says what is read.
-/

namespace Switchyard.Json

variable {α : Type} {n : Nat}

/-! ### White space -/

/-- The text is at its end, or at a sign between values. -/
def Cut (cs : List Char) : Prop :=
  ∀ c ∈ cs.head?, c = ',' ∨ c = ':' ∨ c = ']' ∨ c = '\x7d'

/-- The word begins with a character that is no white space and closes nothing. -/
def Opens (w : List Char) : Prop :=
  ∃ c cs, w = c :: cs ∧ isBlank c = false ∧ c ≠ ']' ∧ c ≠ '\x7d'

variable {cs rest w : List Char} {c : Char}

theorem isBlank_iff : isBlank c = true ↔ c = ' ' ∨ c = '\t' ∨ c = '\n' ∨ c = '\r' := by
  simp only [isBlank, Bool.or_eq_true, beq_iff_eq, or_assoc]

theorem exists_blank_skipBlank (cs : List Char) : ∃ before, Blank before ∧ cs = before ++ skipBlank cs :=
  ⟨cs.takeWhile isBlank, fun _ hc => isBlank_iff.1 (List.mem_takeWhile_imp hc),
    List.takeWhile_append_dropWhile.symm⟩

theorem Blank.skipBlank_append (h : Blank cs) (rest : List Char) :
    skipBlank (cs ++ rest) = skipBlank rest :=
  List.dropWhile_append_of_pos fun c hc => isBlank_iff.2 (h c hc)

theorem skipBlank_cons (h : isBlank c = false) (cs : List Char) : skipBlank (c :: cs) = c :: cs :=
  List.dropWhile_cons_of_neg (Bool.eq_false_iff.1 h)

theorem Opens.skipBlank_append (h : Opens w) (rest : List Char) : skipBlank (w ++ rest) = w ++ rest := by
  obtain ⟨c, cs, rfl, hc, -⟩ := h
  exact skipBlank_cons hc _

theorem Cut.skipBlank_eq (h : Cut cs) : skipBlank cs = cs := by
  cases cs with
  | nil => rfl
  | cons c cs =>
    refine skipBlank_cons ?_ cs
    obtain rfl | rfl | rfl | rfl := h c rfl <;> rfl

theorem Blank.stops_append (h : Blank cs) (hrest : Cut rest) : Stops (cs ++ rest) := by
  intro c hc
  cases cs with
  | nil => obtain rfl | rfl | rfl | rfl := hrest c hc <;> decide
  | cons d cs =>
    obtain rfl : d = c := Option.some.inj hc
    obtain rfl | rfl | rfl | rfl := h d List.mem_cons_self <;> decide

theorem cut_comma (cs : List Char) : Cut (',' :: cs) := by
  rintro c ⟨⟩
  exact .inl rfl

theorem cut_colon (cs : List Char) : Cut (':' :: cs) := by
  rintro c ⟨⟩
  exact .inr (.inl rfl)

/-- Reads with white space around. -/
def padded (f : List Char → Option (α × List Char)) (cs : List Char) : Option (α × List Char) :=
  (f (skipBlank cs)).map fun (x, rest) => (x, skipBlank rest)

variable {f q : List Char → Option (α × List Char)} {W : List Char → α → Prop} {closing : Char}

theorem Reads.padded (hf : Reads f W Stops n) (hW : ∀ {w x}, W w x → Opens w) :
    Reads (padded f) (Padded W) Cut n where
  sound {cs rest x} h := by
    obtain ⟨⟨_, rest⟩, hread, ⟨⟩⟩ := Option.map_eq_some_iff.1 h
    obtain ⟨w, hcs, hw⟩ := hf.sound hread
    obtain ⟨before, hbefore, hskip⟩ := exists_blank_skipBlank cs
    obtain ⟨behind, hbehind, hrest⟩ := exists_blank_skipBlank rest
    refine ⟨before ++ (w ++ behind), ?_, .mk hbefore hw hbehind⟩
    rw [List.append_assoc, List.append_assoc, ← hrest, ← hcs, ← hskip]
  complete := by
    rintro _ rest x ⟨hbefore, hw, hbehind⟩ hlen hcut
    rename_i before w behind
    simp only [List.length_append] at hlen
    have hread := hf.complete hw (by omega) (hbehind.stops_append hcut)
    rw [Json.padded, List.append_assoc, hbefore.skipBlank_append, List.append_assoc,
      (hW hw).skipBlank_append, hread]
    show some (x, skipBlank (behind ++ rest)) = _
    rw [hbehind.skipBlank_append, hcut.skipBlank_eq]

/-! ### Lists -/

/-- Reads one of a list, and the others with `f` if a comma follows. -/
def step (q : List Char → Option (α × List Char)) (closing : Char)
    (f : List Char → Option (List α × List Char)) (cs : List Char) : Option (List α × List Char) :=
  match q cs with
  | some (x, c :: rest) =>
    if c = ',' then (f rest).map fun (xs, rest) => (x :: xs, rest)
    else if c = closing then some ([x], rest) else none
  | _ => none

theorem Separated.exists_first {xs : List α} (h : Separated W w xs) :
    ∃ x first behind, W first x ∧ w = first ++ behind := by
  cases h with
  | last hw => exact ⟨_, w, [], hw, (List.append_nil w).symm⟩
  | more hw _ => exact ⟨_, _, _, hw, rfl⟩

/-- A list with the bracket behind it. -/
inductive Closed (W : List Char → α → Prop) (closing : Char) : List Char → List α → Prop
  | mk {w : List Char} {xs : List α} (hw : Separated W w xs) : Closed W closing (w ++ [closing]) xs

theorem Reads.closed {f : List Char → Option (List α × List Char)} (hq : Reads q W Cut n)
    (hclosing : closing = ']' ∨ closing = '\x7d') (hf : ∀ cs, f cs = step q closing f cs) :
    Reads f (Closed W closing) (fun _ => True) n where
  sound {cs rest xs} := by
    induction hlen : cs.length using Nat.strongRecOn generalizing cs xs with
    | _ len ih =>
      intro h
      rw [hf, step] at h
      split at h
      · next x c behind hx =>
        obtain ⟨w, rfl, hw⟩ := hq.sound hx
        split at h
        · next hcomma =>
          obtain ⟨⟨xs, _⟩, hxs, ⟨⟩⟩ := Option.map_eq_some_iff.1 h
          have hshorter : behind.length < len := by
            rw [← hlen, List.length_append, List.length_cons]
            omega
          obtain ⟨_, rfl, @⟨ws, _, hws⟩⟩ := ih _ hshorter rfl hxs
          refine ⟨(w ++ ',' :: ws) ++ [closing], ?_, .mk (.more hw hws)⟩
          rw [hcomma]
          simp only [List.append_assoc, List.cons_append]
        · split at h
          · next hc =>
            cases h
            refine ⟨w ++ [closing], ?_, .mk (.last hw)⟩
            rw [hc, List.append_assoc]
            rfl
          · cases h
      · cases h
  complete := by
    rintro _ rest xs ⟨hw⟩ hlen -
    have hcut : Cut (closing :: rest) := by
      rintro c ⟨⟩
      exact hclosing.elim (fun h => .inr (.inr (.inl h))) fun h => .inr (.inr (.inr h))
    have hcomma : closing ≠ ',' := by
      rcases hclosing with rfl | rfl <;> decide
    induction hw with
    | last hw =>
      simp only [List.length_append] at hlen
      have hread := hq.complete hw (by omega) hcut
      rw [hf, step, List.append_assoc, List.cons_append, List.nil_append, hread]
      dsimp only
      rw [if_neg hcomma, if_pos rfl]
    | @more w ws x xs hw _ ih =>
      simp only [List.length_append, List.length_cons] at hlen
      have hread := hq.complete hw (by omega) (cut_comma (ws ++ closing :: rest))
      have hbehind := ih (by simp only [List.length_append, List.length_cons]; omega)
      simp only [List.append_assoc, List.cons_append, List.nil_append] at hbehind ⊢
      rw [hf, step, hread]
      show (f (ws ++ closing :: rest)).map _ = _
      rw [hbehind]
      rfl

/-- Reads a list whose bracket is open. -/
def opened (f : List Char → Option (List α × List Char)) (closing : Char) (cs : List Char) :
    Option (List α × List Char) :=
  match skipBlank cs with
  | c :: rest => if c = closing then some ([], rest) else f cs
  | [] => f cs

/-- A list whose bracket is open, and the other bracket behind it. -/
def Open (W : List Char → α → Prop) (opening closing : Char) (w : List Char) (xs : List α) : Prop :=
  Bracketed W opening closing (opening :: w) xs

theorem Reads.opened {opening : Char} {f : List Char → Option (List α × List Char)}
    (hf : Reads f (Closed W closing) (fun _ => True) n)
    (hclosing : closing = ']' ∨ closing = '\x7d')
    (hW : ∀ {w x}, W w x → ∃ before w', w = before ++ w' ∧ Blank before ∧ Opens w') :
    Reads (opened f closing) (Open W opening closing) (fun _ => True) n where
  sound {cs rest xs} h := by
    have hsome (h : f cs = some (xs, rest)) : ∃ w, cs = w ++ rest ∧ Open W opening closing w xs := by
      obtain ⟨_, hcs, ⟨hw⟩⟩ := hf.sound h
      exact ⟨_, hcs, .some hw⟩
    unfold Json.opened at h
    split at h
    · next c behind hskip =>
      split at h
      · next hc =>
        cases h
        obtain ⟨before, hbefore, hcs⟩ := exists_blank_skipBlank cs
        refine ⟨before ++ [closing], ?_, .none hbefore⟩
        rw [hcs, hskip, hc, List.append_assoc]
        rfl
      · exact hsome h
    · exact hsome h
  complete {w rest xs} hw hlen hrest := by
    cases hw with
    | @none w hw =>
      have hblank : isBlank closing = false := by
        rcases hclosing with rfl | rfl <;> decide
      rw [Json.opened, List.append_assoc, hw.skipBlank_append, List.cons_append, skipBlank_cons hblank]
      exact if_pos rfl
    | @some w _ hw =>
      have hread : f (w ++ [closing] ++ rest) = some (xs, rest) := hf.complete (.mk hw) hlen hrest
      obtain ⟨before, c, w', rfl, hbefore, hc, hne⟩ : ∃ before c w', w = before ++ c :: w' ∧
          Blank before ∧ isBlank c = false ∧ c ≠ closing := by
        obtain ⟨x, _, behind, hx, rfl⟩ := hw.exists_first
        obtain ⟨before, _, rfl, hbefore, c, cs, rfl, hc, hbracket, hbrace⟩ := hW hx
        refine ⟨before, c, cs ++ behind, List.append_assoc _ _ _, hbefore, hc, ?_⟩
        rintro rfl
        exact hclosing.elim hbracket hbrace
      have hskip : skipBlank (before ++ c :: w' ++ [closing] ++ rest) =
          c :: (w' ++ [closing] ++ rest) := by
        simp only [List.append_assoc, List.cons_append]
        rw [hbefore.skipBlank_append, skipBlank_cons hc]
      rw [Json.opened, hskip]
      dsimp only
      rw [if_neg hne]
      exact hread

theorem plain_items (item : Reader Json) (cs : List Char) :
    plain (items item cs) =
      step (padded fun cs => plain (item cs)) ']' (fun cs => plain (items item cs)) cs := by
  rw [items, step, padded]
  rcases item (skipBlank cs) with - | ⟨v, r, hr⟩
  · rfl
  · dsimp only [plain, Option.map_some]
    split
    · next s hs =>
      simp only [hs, if_true]
      rcases items item s with - | ⟨vs, t, ht⟩ <;> rfl
    · next s hs =>
      simp only [hs]
      rfl
    · next hcomma hbracket =>
      split
      · next c s hs =>
        obtain ⟨-, hs⟩ := Prod.mk.inj (Option.some.inj hs)
        rw [if_neg fun hc : c = ',' => hcomma s (hc ▸ hs),
          if_neg fun hc : c = ']' => hbracket s (hc ▸ hs)]
        rfl
      · rfl

/-- Reads a key, a colon and a value. -/
def keyed (f : List Char → Option (Json × List Char)) (cs : List Char) :
    Option ((Option (List Char) × Json) × List Char) :=
  match padded (fun cs => plain (readString cs)) cs with
  | some (key, c :: rest) =>
    if c = ':' then (padded f rest).map fun (v, rest) => ((key, v), rest) else none
  | _ => none

theorem plain_member (item : Reader Json) (cs : List Char) :
    ((plain (member item cs)).map fun (m, rest) => (m, skipBlank rest)) =
      keyed (fun cs => plain (item cs)) cs := by
  rw [member, keyed, padded]
  rcases readString (skipBlank cs) with - | ⟨key, r, hr⟩
  · rfl
  · dsimp only [plain, Option.map_some]
    split
    · next s hs =>
      simp only [hs, if_true, padded]
      rcases item (skipBlank s) with - | ⟨v, t, ht⟩ <;> rfl
    · next hcolon =>
      split
      · next c s hs =>
        obtain ⟨-, hs⟩ := Prod.mk.inj (Option.some.inj hs)
        rw [if_neg fun hc : c = ':' => hcolon s (hc ▸ hs)]
        rfl
      · rfl

theorem plain_members (item : Reader Json) (cs : List Char) :
    plain (members item cs) =
      step (keyed fun cs => plain (item cs)) '\x7d' (fun cs => plain (members item cs)) cs := by
  rw [members, step, ← plain_member]
  rcases member item cs with - | ⟨m, r, hr⟩
  · rfl
  · dsimp only [plain, Option.map_some]
    split
    · next s hs =>
      simp only [hs, if_true]
      rcases members item s with - | ⟨ms, t, ht⟩ <;> rfl
    · next s hs =>
      simp only [hs]
      rfl
    · next hcomma hbrace =>
      split
      · next c s hs =>
        obtain ⟨-, hs⟩ := Prod.mk.inj (Option.some.inj hs)
        rw [if_neg fun hc : c = ',' => hcomma s (hc ▸ hs),
          if_neg fun hc : c = '\x7d' => hbrace s (hc ▸ hs)]
        rfl
      · rfl

theorem plain_readArray (item : Reader Json) (cs : List Char) :
    plain (readArray item cs) =
      (opened (fun cs => plain (items item cs)) ']' cs).map fun (vs, rest) => (.array vs, rest) := by
  rw [readArray, opened]
  split
  · next s hs =>
    simp only [hs, if_true]
    rfl
  · next hbracket =>
    refine (plain_map Json.array (fun _ => rfl) (items item cs)).trans ?_
    split
    · next c s hs => rw [if_neg fun hc : c = ']' => hbracket s (hc ▸ hs)]
    · rfl

theorem plain_readObject (item : Reader Json) (cs : List Char) :
    plain (readObject item cs) =
      (opened (fun cs => plain (members item cs)) '\x7d' cs).map fun (ms, rest) =>
        (.object ms, rest) := by
  rw [readObject, opened]
  split
  · next s hs =>
    simp only [hs, if_true]
    rfl
  · next hbrace =>
    refine (plain_map Json.object (fun _ => rfl) (members item cs)).trans ?_
    split
    · next c s hs => rw [if_neg fun hc : c = '\x7d' => hbrace s (hc ▸ hs)]
    · rfl

/-! ### Values -/

variable {opening : Char} {v : Json}

theorem Opens.append (h : Opens w) (rest : List Char) : Opens (w ++ rest) := by
  obtain ⟨c, cs, rfl, hc⟩ := h
  exact ⟨c, cs ++ rest, rfl, hc⟩

/-- No value without parts begins like one with parts. -/
theorem Scalar.exists_first (h : Scalar w v) :
    ∃ c cs, w = c :: cs ∧ isBlank c = false ∧ c ∉ ['[', ']', '\x7b', '\x7d'] := by
  cases h with
  | nullWord | trueWord | falseWord => exact ⟨_, _, rfl, by decide, by decide⟩
  | number hw =>
    obtain ⟨c, cs, rfl, hc⟩ := hw.exists_first
    refine ⟨c, cs, rfl, Bool.eq_false_iff.2 fun hblank => ?_, fun hmem => ?_⟩
    · rcases isBlank_iff.1 hblank with rfl | rfl | rfl | rfl <;> exact absurd hc (by decide)
    · simp only [List.mem_cons, List.not_mem_nil, or_false] at hmem
      rcases hmem with rfl | rfl | rfl | rfl <;> exact absurd hc (by decide)
  | string hw =>
    obtain ⟨cs, rfl⟩ := hw.exists_first
    exact ⟨_, _, rfl, by decide, by decide⟩

theorem Quoted.opens {key : Option (List Char)} (h : Quoted w key) : Opens w := by
  obtain ⟨cs, rfl⟩ := h.exists_first
  exact ⟨_, _, rfl, by decide, by decide, by decide⟩

theorem Writes.opens (h : Writes w v) : Opens w := by
  cases h with
  | scalar hw =>
    obtain ⟨c, cs, rfl, hc, hne⟩ := hw.exists_first
    refine ⟨c, cs, rfl, hc, ?_, ?_⟩
    · rintro rfl
      exact hne (by decide)
    · rintro rfl
      exact hne (by decide)
  | array hw | object hw => cases hw <;> exact ⟨_, _, rfl, by decide, by decide, by decide⟩

theorem Padded.exists_opens {x : α} (hW : ∀ {w x}, W w x → Opens w) (h : Padded W w x) :
    ∃ before w', w = before ++ w' ∧ Blank before ∧ Opens w' := by
  obtain ⟨hbefore, hw, -⟩ := h
  exact ⟨_, _, rfl, hbefore, (hW hw).append _⟩

theorem Member.exists_opens {W : List Char → Json → Prop} {m : Option (List Char) × Json}
    (h : Member W w m) : ∃ before w', w = before ++ w' ∧ Blank before ∧ Opens w' := by
  obtain ⟨hw, hws⟩ := h
  obtain ⟨before, w', rfl, hbefore, hopens⟩ := hw.exists_opens Quoted.opens
  exact ⟨before, _, List.append_assoc _ _ _, hbefore, hopens.append _⟩

theorem Reads.keyed {f : List Char → Option (Json × List Char)} {W : List Char → Json → Prop}
    (hf : Reads f W Stops n) (hW : ∀ {w v}, W w v → Opens w) : Reads (keyed f) (Member W) Cut n where
  sound {cs rest m} h := by
    unfold Json.keyed at h
    split at h
    · next key c behind hkey =>
      split at h
      · next hc =>
        obtain ⟨⟨v, _⟩, hv, ⟨⟩⟩ := Option.map_eq_some_iff.1 h
        obtain ⟨w, rfl, hw⟩ := ((reads_string Stops n).padded Quoted.opens).sound hkey
        obtain ⟨ws, rfl, hws⟩ := (hf.padded hW).sound hv
        refine ⟨w ++ ':' :: ws, ?_, .mk hw hws⟩
        rw [hc, List.append_assoc, List.cons_append]
      · cases h
    · cases h
  complete := by
    rintro _ rest _ ⟨hw, hws⟩ hlen hrest
    rename_i w ws key v
    simp only [List.length_append, List.length_cons] at hlen
    have hkey := ((reads_string Stops n).padded Quoted.opens).complete hw (by omega)
      (cut_colon (ws ++ rest))
    have hv := (hf.padded hW).complete hws (by omega) hrest
    rw [Json.keyed, List.append_assoc, List.cons_append, hkey]
    dsimp only
    rw [if_pos rfl, hv]
    rfl

theorem plain_value_array (n : Nat) (cs : List Char) :
    plain (value (n + 1) ('[' :: cs)) = plain (readArray (value n) cs) :=
  plain_map_self (by intro x; rfl) (readArray (value n) cs)

theorem plain_value_object (n : Nat) (cs : List Char) :
    plain (value (n + 1) ('\x7b' :: cs)) = plain (readObject (value n) cs) :=
  plain_map_self (by intro x; rfl) (readObject (value n) cs)

theorem plain_value_scalar (n : Nat) (harray : ∀ behind, cs ≠ '[' :: behind)
    (hobject : ∀ behind, cs ≠ '\x7b' :: behind) : plain (value n cs) = plain (scalar cs) := by
  cases n with
  | zero => rfl
  | succ n =>
    unfold value
    split
    · exact (harray _ rfl).elim
    · exact (hobject _ rfl).elim
    · rfl

/-- Values are read up to the given depth, which no value exceeds that has no more characters. -/
theorem reads_value (n : Nat) : Reads (fun cs => plain (value n cs)) Writes Stops n := by
  induction n with
  | zero =>
    refine ⟨fun h => ?_, fun {w _ _} hw hlen _ => ?_⟩
    · obtain ⟨w, hcs, hw⟩ := (reads_scalar 0).sound h
      exact ⟨w, hcs, .scalar hw⟩
    · obtain ⟨c, cs, rfl, -⟩ := hw.opens
      exact absurd hlen (Nat.not_succ_le_zero _)
  | succ n ih =>
    have harray : Reads (opened (fun cs => plain (items (value n) cs)) ']')
        (Open (Padded Writes) '[' ']') (fun _ => True) n :=
      ((ih.padded Writes.opens).closed (.inl rfl) (plain_items (value n))).opened (.inl rfl)
        (Padded.exists_opens Writes.opens)
    have hobject : Reads (opened (fun cs => plain (members (value n) cs)) '\x7d')
        (Open (Member Writes) '\x7b' '\x7d') (fun _ => True) n :=
      ((ih.keyed Writes.opens).closed (.inr rfl) (plain_members (value n))).opened (.inr rfl)
        Member.exists_opens
    refine ⟨fun {cs rest v} h => ?_, fun {w rest v} hw hlen hrest => ?_⟩
    · by_cases hfirst : ∃ behind, cs = '[' :: behind
      · obtain ⟨behind, rfl⟩ := hfirst
        rw [plain_value_array, plain_readArray] at h
        obtain ⟨⟨vs, _⟩, hread, ⟨⟩⟩ := Option.map_eq_some_iff.1 h
        obtain ⟨w, rfl, hw⟩ := harray.sound hread
        exact ⟨'[' :: w, rfl, .array hw⟩
      · by_cases hfirst' : ∃ behind, cs = '\x7b' :: behind
        · obtain ⟨behind, rfl⟩ := hfirst'
          rw [plain_value_object, plain_readObject] at h
          obtain ⟨⟨ms, _⟩, hread, ⟨⟩⟩ := Option.map_eq_some_iff.1 h
          obtain ⟨w, rfl, hw⟩ := hobject.sound hread
          exact ⟨'\x7b' :: w, rfl, .object hw⟩
        · rw [plain_value_scalar _ (fun b hb => hfirst ⟨b, hb⟩) fun b hb => hfirst' ⟨b, hb⟩] at h
          obtain ⟨w, hcs, hw⟩ := (reads_scalar n).sound h
          exact ⟨w, hcs, .scalar hw⟩
    · cases hw with
      | scalar hw =>
        have hread := (reads_scalar (n + 1)).complete hw hlen hrest
        obtain ⟨c, cs, rfl, -, hne⟩ := hw.exists_first
        rw [List.cons_append] at hread ⊢
        rw [plain_value_scalar, hread]
        · rintro behind h
          cases (List.cons.inj h).1
          exact hne (by decide)
        · rintro behind h
          cases (List.cons.inj h).1
          exact hne (by decide)
      | array hw =>
        obtain ⟨w', rfl⟩ : ∃ w', w = '[' :: w' := by
          cases hw <;> exact ⟨_, rfl⟩
        rw [List.cons_append, plain_value_array, plain_readArray,
          harray.complete hw (Nat.le_of_succ_le_succ hlen) trivial]
        rfl
      | object hw =>
        obtain ⟨w', rfl⟩ : ∃ w', w = '\x7b' :: w' := by
          cases hw <;> exact ⟨_, rfl⟩
        rw [List.cons_append, plain_value_object, plain_readObject,
          hobject.complete hw (Nat.le_of_succ_le_succ hlen) trivial]
        rfl

/-- **Documents.** A text is read exactly if it is a document, and as the value it writes. -/
theorem parse?_eq_some_iff : parse? cs = some v ↔ Document cs v := by
  have hpadded (n : Nat) := (reads_value n).padded Writes.opens
  have hparse : parse? cs = some v ↔ padded (fun d => plain (value cs.length d)) cs = some (v, []) := by
    unfold parse? padded
    dsimp only
    rcases value cs.length (skipBlank cs) with - | ⟨v', rest, _⟩
    · simp [plain]
    · show (if skipBlank rest = [] then some v' else none) = some v ↔
        some (v', skipBlank rest) = some (v, [])
      split
      · next hrest => simp [hrest]
      · next hrest => simp [hrest]
  rw [hparse]
  constructor
  · intro h
    obtain ⟨w, rfl, hw⟩ := (hpadded _).sound h
    rwa [List.append_nil]
  · intro h
    have hread : padded _ (cs ++ []) = some (v, []) :=
      (hpadded cs.length).complete h (Nat.le_refl _) nofun
    rwa [List.append_nil] at hread

end Switchyard.Json
