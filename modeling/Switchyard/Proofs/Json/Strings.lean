import Switchyard.Json.Reader
import Switchyard.Proofs.Json.Grammar

/-!
# Reading strings

A reader is right if it takes the words of the grammar off a text and nothing else: `Reads` says so,
and the modules that follow show it of one reader after the other, from the small to the large.
`reads_string` is the first. The text of a string is what its parts spell (`StringPart.text?_eq_some_iff`).
-/

namespace Switchyard

theorem Hex.value?_lt {c : Char} {n : Nat} (h : value? c = some n) : n < 16 := by
  have hle {lo : Char} (hc : lo ≤ c) : lo.toNat ≤ c.toNat := hc
  have hge {hi : Char} (hc : c ≤ hi) : c.toNat ≤ hi.toNat := hc
  unfold value? at h
  repeat' split at h
  all_goals cases h
  · next hc =>
    have := hge hc.2
    have : '9'.toNat = 57 := rfl
    have : '0'.toNat = 48 := rfl
    omega
  · next hc =>
    have := hge hc.2
    have : 'f'.toNat = 102 := rfl
    have : 'a'.toNat = 97 := rfl
    omega
  · next hc =>
    have := hge hc.2
    have : 'F'.toNat = 70 := rfl
    have : 'A'.toNat = 65 := rfl
    omega

/-! ### Surrogates -/

namespace StringPart

theorem isValidChar_toNat (c : Char) : c.toNat.isValidChar := c.valid

theorem toNat_ofNat {n : Nat} (h : n.isValidChar) : (Char.ofNat n).toNat = n := by
  rw [Char.ofNat, dif_pos h]
  rfl

theorem text?_unit_cons {n : Nat} (h : ¬ (0xD800 ≤ n ∧ n < 0xE000)) (ps : List StringPart) :
    text? (.unit n :: ps) = (text? ps).map (Char.ofNat n :: ·) := by
  match ps with
  | [] | .char _ :: _ => simp only [text?, if_neg h]
  | .unit lo :: ps =>
    have hhi : ¬ (0xD800 ≤ n ∧ n < 0xDC00) := by omega
    have hlo : ¬ (0xDC00 ≤ n ∧ n < 0xE000) := by omega
    rw [text?, if_neg hhi, if_neg hlo]

theorem text?_pair_cons {hi lo : Nat} (hhi : hi < 0x400) (hlo : lo < 0x400) (ps : List StringPart) :
    text? (.unit (0xD800 + hi) :: .unit (0xDC00 + lo) :: ps) =
      (text? ps).map (Char.ofNat (0x10000 + hi * 0x400 + lo) :: ·) := by
  have hhigh : 0xD800 ≤ 0xD800 + hi ∧ 0xD800 + hi < 0xDC00 := by omega
  have hlow : 0xDC00 ≤ 0xDC00 + lo ∧ 0xDC00 + lo < 0xE000 := by omega
  rw [text?, if_pos hhigh, if_pos hlow, Nat.add_sub_cancel_left, Nat.add_sub_cancel_left]

/-- A unit that is part of a text is a character of its own, or the first of a pair. -/
theorem exists_of_text?_unit_cons {n : Nat} {ps : List StringPart} {cs : List Char}
    (h : text? (.unit n :: ps) = some cs) :
    ¬ (0xD800 ≤ n ∧ n < 0xE000) ∨
      ∃ hi lo qs, hi < 0x400 ∧ lo < 0x400 ∧ n = 0xD800 + hi ∧ ps = .unit (0xDC00 + lo) :: qs := by
  refine Classical.or_iff_not_imp_left.2 fun hn => ?_
  have hn := Decidable.not_not.1 hn
  match ps with
  | [] | .char _ :: _ =>
    simp only [text?, if_pos hn] at h
    cases h
  | .unit lo :: ps =>
    rw [text?] at h
    split at h
    · split at h
      · next hhi hlo => exact ⟨n - 0xD800, lo - 0xDC00, ps, by omega, by omega, by omega, by simp; omega⟩
      · cases h
    · split at h
      · cases h
      · omega

/-- The text of some parts is the one they spell. -/
theorem text?_eq_some_iff {ps : List StringPart} {cs : List Char}
    (hps : ∀ n, .unit n ∈ ps → n < 0x10000) : text? ps = some cs ↔ Spells ps cs := by
  constructor
  · intro h
    induction hlen : ps.length using Nat.strongRecOn generalizing ps cs with
    | _ len ih =>
      match ps with
      | [] =>
        cases h
        exact .nil
      | .char c :: ps =>
        obtain ⟨cs, hcs, rfl⟩ := Option.map_eq_some_iff.1 h
        exact .char c (ih _ (hlen ▸ Nat.lt_succ_self _) (fun n hn => hps n (.tail _ hn)) hcs rfl)
      | .unit n :: ps =>
        rcases exists_of_text?_unit_cons h with hn | ⟨hi, lo, qs, hhi, hlo, rfl, rfl⟩
        · rw [text?_unit_cons hn] at h
          obtain ⟨cs, hcs, rfl⟩ := Option.map_eq_some_iff.1 h
          have hlt := hps n (.head _)
          have hvalid : n.isValidChar := by
            unfold Nat.isValidChar
            omega
          have hspells := ih _ (hlen ▸ Nat.lt_succ_self _) (fun n hn => hps n (.tail _ hn)) hcs rfl
          have hchar := Spells.unit (Char.ofNat n) (by rwa [toNat_ofNat hvalid]) hspells
          rwa [toNat_ofNat hvalid] at hchar
        · rw [text?_pair_cons hhi hlo] at h
          obtain ⟨cs, hcs, rfl⟩ := Option.map_eq_some_iff.1 h
          have hvalid : (0x10000 + hi * 0x400 + lo).isValidChar := by
            unfold Nat.isValidChar
            omega
          exact .pair _ hhi hlo (toNat_ofNat hvalid) (ih qs.length
            (by simp only [List.length_cons] at hlen; omega)
            (fun n hn => hps n (.tail _ (.tail _ hn))) hcs rfl)
  · intro h
    clear hps
    induction h with
    | nil => rfl
    | char c _ ih => rw [text?, ih]; rfl
    | unit c hc _ ih =>
      have hn : ¬ (0xD800 ≤ c.toNat ∧ c.toNat < 0xE000) := by
        have hvalid := isValidChar_toNat c
        unfold Nat.isValidChar at hvalid
        omega
      rw [text?_unit_cons hn, ih, Char.ofNat_toNat]
      rfl
    | pair c hhi hlo hc _ ih =>
      rw [text?_pair_cons hhi hlo, ih, ← hc, Char.ofNat_toNat]
      rfl

end StringPart

namespace Json

variable {α : Type} {cs rest w : List Char}

/-! ### Readers -/

/-- What a reader returns, with its rest as a mere text. -/
def plain {P : List Char → Prop} (r : Option (α × { rest : List Char // P rest })) :
    Option (α × List Char) :=
  r.map fun (x, rest) => (x, rest.1)

theorem plain_eq_some {P : List Char → Prop} {r : Option (α × { rest : List Char // P rest })}
    {x : α} {rest : List Char} : plain r = some (x, rest) ↔ ∃ h, r = some (x, ⟨rest, h⟩) := by
  rcases r with - | ⟨y, rest', h⟩
  · exact ⟨nofun, nofun⟩
  · constructor
    · rintro ⟨⟩
      exact ⟨h, rfl⟩
    · rintro ⟨h, ⟨⟩⟩
      rfl

theorem plain_map {β : Type} {P Q : List Char → Prop}
    {f : α × { rest : List Char // P rest } → β × { rest : List Char // Q rest }} (g : α → β)
    (hf : ∀ x, ((f x).1, (f x).2.1) = (g x.1, x.2.1))
    (r : Option (α × { rest : List Char // P rest })) :
    plain (r.map f) = (plain r).map fun x => (g x.1, x.2) := by
  cases r with
  | none => rfl
  | some x => exact congrArg some (hf x)

theorem plain_map_self {P Q : List Char → Prop}
    {f : α × { rest : List Char // P rest } → α × { rest : List Char // Q rest }}
    (hf : ∀ x, ((f x).1, (f x).2.1) = (x.1, x.2.1))
    (r : Option (α × { rest : List Char // P rest })) : plain (r.map f) = plain r :=
  (plain_map id hf r).trans Option.map_id'

/-- `f` takes the words of `W` off texts. Whatever it takes is a word, and it takes every word of up to
`n` characters that has a text of `F` behind it. -/
structure Reads (f : List Char → Option (α × List Char)) (W : List Char → α → Prop)
    (F : List Char → Prop) (n : Nat) : Prop where
  sound {cs rest : List Char} {x : α} : f cs = some (x, rest) → ∃ w, cs = w ++ rest ∧ W w x
  complete {w rest : List Char} {x : α} : W w x → w.length ≤ n → F rest → f (w ++ rest) = some (x, rest)

/-- Nothing goes on with a number at the front of the text. -/
def Stops (cs : List Char) : Prop :=
  ∀ c ∈ cs.head?, c.isDigit = false ∧ c ≠ '.' ∧ c ≠ 'e' ∧ c ≠ 'E'

/-! ### Strings -/

theorem escaped?_eq_some_iff {c e : Char} : escaped? c = some e ↔ (c, e) ∈ escapes := by
  constructor
  · intro h
    unfold escaped? at h
    split at h
    · next hself =>
      cases h
      rcases hself with rfl | rfl | rfl <;> decide
    · repeat' split at h
      all_goals cases h
      all_goals
        subst c
        decide
  · intro h
    simp only [escapes, List.mem_cons, Prod.mk.injEq, List.not_mem_nil, or_false] at h
    rcases h with ⟨rfl, rfl⟩ | ⟨rfl, rfl⟩ | ⟨rfl, rfl⟩ | ⟨rfl, rfl⟩ | ⟨rfl, rfl⟩ | ⟨rfl, rfl⟩ |
      ⟨rfl, rfl⟩ | ⟨rfl, rfl⟩ <;> rfl

theorem unit?_eq_some_iff {a b c d : Char} {u : Nat} :
    unit? a b c d = some u ↔ Part ['\\', 'u', a, b, c, d] (.unit u) := by
  constructor
  · intro h
    obtain ⟨k, ha, h⟩ := Option.bind_eq_some_iff.1 h
    obtain ⟨l, hb, h⟩ := Option.bind_eq_some_iff.1 h
    obtain ⟨m, hc, h⟩ := Option.bind_eq_some_iff.1 h
    obtain ⟨o, hd, ⟨⟩⟩ := Option.bind_eq_some_iff.1 h
    exact .unit ha hb hc hd
  · rintro ⟨⟩
    rename_i ha hb hc hd
    rw [unit?, ha, hb, hc, hd]
    rfl

/-- The quote that ends a string stands behind its parts. -/
theorem parts_of_stringParts {acc ps : List StringPart} (h : stringParts acc cs = some (ps, rest)) :
    ∃ w qs, cs = w ++ '"' :: rest ∧ ps = acc.reverse ++ qs ∧ Parts w qs := by
  fun_induction stringParts acc cs with
  | case1 acc a b c d cs u hu ih =>
    obtain ⟨w, qs, rfl, rfl, hw⟩ := ih h
    exact ⟨['\\', 'u', a, b, c, d] ++ w, .unit u :: qs, rfl, by simp, .cons (unit?_eq_some_iff.1 hu) hw⟩
  | case2 => cases h
  | case3 acc c cs _ e he ih =>
    obtain ⟨w, qs, rfl, rfl, hw⟩ := ih h
    exact ⟨['\\', c] ++ w, .char e :: qs, rfl, by simp, .cons (.escape (escaped?_eq_some_iff.1 he)) hw⟩
  | case4 => cases h
  | case5 acc cs =>
    cases h
    exact ⟨[], [], rfl, (List.append_nil _).symm, .nil⟩
  | case6 => cases h
  | case7 acc c cs _ _ hquote hplain ih =>
    obtain ⟨w, qs, rfl, rfl, hw⟩ := ih h
    obtain ⟨hbackslash, hc⟩ := not_or.1 hplain
    have hpart : Part [c] (.char c) := .plain (Nat.le_of_not_lt hc) hquote hbackslash
    exact ⟨[c] ++ w, .char c :: qs, rfl, by simp, .cons hpart hw⟩
  | case8 => cases h

theorem stringParts_append {ps : List StringPart} (hw : Parts w ps) (acc : List StringPart)
    (rest : List Char) : stringParts acc (w ++ '"' :: rest) = some (acc.reverse ++ ps, rest) := by
  induction hw generalizing acc with
  | nil => simp [stringParts]
  | @cons v ws p ps hp _ ih =>
    rw [List.append_assoc]
    have hlast (p : StringPart) : (p :: acc).reverse ++ ps = acc.reverse ++ p :: ps := by simp
    cases hp with
    | plain hc hquote hbackslash =>
      rename_i c
      have hplain : ¬ (c = '\\' ∨ c.toNat < 0x20) := not_or.2 ⟨hbackslash, Nat.not_lt.2 hc⟩
      rw [List.cons_append, List.nil_append, stringParts, if_neg hquote, if_neg hplain, ih, hlast]
      · rintro _ _ _ _ _ rfl
        exact (hbackslash rfl).elim
      · rintro _ _ rfl
        exact (hbackslash rfl).elim
    | escape he =>
      have hread := escaped?_eq_some_iff.2 he
      rw [List.cons_append, List.cons_append, List.nil_append, stringParts, hread]
      · exact (ih _).trans (by rw [hlast])
      · rintro _ _ _ _ _ rfl
        cases hread
    | unit ha hb hc hd =>
      have hread := unit?_eq_some_iff.2 (.unit ha hb hc hd)
      simp only [List.cons_append, List.nil_append, stringParts, hread, ih, hlast]

theorem Parts.unit_lt {ps : List StringPart} (h : Parts w ps) : ∀ u, .unit u ∈ ps → u < 0x10000 := by
  induction h with
  | nil => exact nofun
  | cons hp _ ih =>
    intro u hu
    rcases List.mem_cons.1 hu with rfl | hu
    · cases hp with
      | unit ha hb hc hd =>
        have := Hex.value?_lt ha
        have := Hex.value?_lt hb
        have := Hex.value?_lt hc
        have := Hex.value?_lt hd
        omega
    · exact ih u hu

theorem quoted_iff {t : Option (List Char)} : Quoted w t ↔
    ∃ v ps, w = '"' :: (v ++ ['"']) ∧ Parts v ps ∧ t = StringPart.text? ps := by
  constructor
  · rintro (⟨hv, htext⟩ | ⟨hv, hno⟩)
    · exact ⟨_, _, rfl, hv, ((StringPart.text?_eq_some_iff hv.unit_lt).2 htext).symm⟩
    · refine ⟨_, _, rfl, hv, (Option.eq_none_iff_forall_ne_some.2 fun text htext => ?_).symm⟩
      exact hno text ((StringPart.text?_eq_some_iff hv.unit_lt).1 htext)
  · rintro ⟨v, ps, rfl, hv, rfl⟩
    cases htext : StringPart.text? ps with
    | some text => exact .text hv ((StringPart.text?_eq_some_iff hv.unit_lt).1 htext)
    | none =>
      refine .noText hv fun text hspells => ?_
      cases htext.symm.trans ((StringPart.text?_eq_some_iff hv.unit_lt).2 hspells)

theorem plain_readString (cs : List Char) : plain (readString ('"' :: cs)) =
    (stringParts [] cs).map fun (ps, rest) => (StringPart.text? ps, rest) := by
  rw [readString]
  split
  · next hps =>
    simp only [hps]
    rfl
  · next hps =>
    simp only [hps]
    rfl

theorem exists_of_readString {t : Option (List Char)} {r : Shorter cs}
    (h : readString cs = some (t, r)) : ∃ behind, cs = '"' :: behind := by
  unfold readString at h
  split at h
  · exact ⟨_, rfl⟩
  · cases h

theorem reads_string (F : List Char → Prop) (n : Nat) :
    Reads (fun cs => plain (readString cs)) Quoted F n where
  sound {cs rest t} h := by
    obtain ⟨_, hread⟩ := plain_eq_some.1 h
    obtain ⟨behind, rfl⟩ := exists_of_readString hread
    rw [plain_readString] at h
    obtain ⟨⟨ps, _⟩, hps, ⟨⟩⟩ := Option.map_eq_some_iff.1 h
    obtain ⟨v, qs, rfl, hqs, hv⟩ := parts_of_stringParts hps
    refine ⟨'"' :: (v ++ ['"']), ?_, quoted_iff.2 ⟨v, qs, rfl, hv, congrArg _ hqs⟩⟩
    simp only [List.cons_append, List.append_assoc, List.nil_append]
  complete {w rest t} hw _ _ := by
    obtain ⟨v, ps, rfl, hv, rfl⟩ := quoted_iff.1 hw
    have hcs : '"' :: (v ++ ['"']) ++ rest = '"' :: (v ++ '"' :: rest) := by
      rw [List.cons_append, List.append_assoc]
      rfl
    rw [hcs, plain_readString, stringParts_append hv]
    rfl

end Json

end Switchyard
