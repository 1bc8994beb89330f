import Mathlib.Data.List.Forall2
import Switchyard.WebSocket.Extension
import Switchyard.Proofs.Text.Split
import Switchyard.Proofs.Web.Upgrading

/-!
# The first acceptable offer

An offer is acceptable if it names the extension and every parameter in it is spelled as one of four,
none of them twice. The answer is made from the first acceptable offer and has the parameters that
concern the server (`negotiate_answers_first_acceptable`). An answer is itself an acceptable offer,
and is answered by itself.
-/

namespace Switchyard.Extension

open Text

/-! ### Spelling of parameters -/

/-- A number for the size of a window. -/
def IsWindow (cs : List Char) (bits : Nat) : Prop :=
  Numeral.Denotes cs bits ∧ 8 ≤ bits ∧ bits ≤ 15

theorem windowBits?_eq_some_iff {cs : List Char} {bits : Nat} :
    windowBits? cs = some bits ↔ IsWindow cs bits := by
  rw [windowBits?, Option.filter_eq_some_iff, Numeral.below?_eq_some_iff (by decide), IsWindow,
    decide_eq_true_iff, Nat.lt_succ_iff, and_assoc, and_comm (a := bits ≤ 15)]

namespace Parameter

/-- A parameter is given with this value, or without one. -/
inductive Takes : Parameter → Option (List Char) → Prop
  | serverNoContextTakeover : Takes serverNoContextTakeover none
  | clientNoContextTakeover : Takes clientNoContextTakeover none
  | serverMaxWindowBits {v : List Char} {bits : Nat} (h : IsWindow v bits) :
      Takes (serverMaxWindowBits bits) (some v)
  | clientMaxWindowBits : Takes (clientMaxWindowBits none) none
  | clientMaxWindowBitsOf {v : List Char} {bits : Nat} (h : IsWindow v bits) :
      Takes (clientMaxWindowBits (some bits)) (some v)

/-- A text says a parameter: its name in letters of either case, and its value behind the first
equals sign if there is one. -/
inductive Spells : List Char → Parameter → Prop
  | alone {cs : List Char} {p : Parameter} (hfree : '=' ∉ cs) (hname : lower cs = p.name.toList)
      (h : p.Takes none) : Spells cs p
  | withValue {cs v : List Char} {p : Parameter} (hfree : '=' ∉ cs)
      (hname : lower (trim cs) = p.name.toList) (h : p.Takes (some (bareValue v))) :
      Spells (cs ++ '=' :: v) p

theorem ofParts?_eq_some_iff {name : List Char} {value : Option (List Char)} {p : Parameter} :
    ofParts? name value = some p ↔ name = p.name.toList ∧ p.Takes value := by
  constructor
  · intro h
    unfold ofParts? at h
    split at h
    · next hname =>
      obtain ⟨rfl, rfl⟩ : value = none ∧ serverNoContextTakeover = p := by simpa using h
      exact ⟨hname, .serverNoContextTakeover⟩
    split at h
    · next hname =>
      obtain ⟨rfl, rfl⟩ : value = none ∧ clientNoContextTakeover = p := by simpa using h
      exact ⟨hname, .clientNoContextTakeover⟩
    split at h
    · next hname =>
      obtain ⟨bits, hbits, rfl⟩ := Option.map_eq_some_iff.1 h
      obtain ⟨v, rfl, hv⟩ := Option.bind_eq_some_iff.1 hbits
      exact ⟨hname, .serverMaxWindowBits (windowBits?_eq_some_iff.1 hv)⟩
    split at h
    · next hname =>
      split at h
      · cases h
        exact ⟨hname, .clientMaxWindowBits⟩
      · obtain ⟨bits, hbits, rfl⟩ := Option.map_eq_some_iff.1 h
        exact ⟨hname, .clientMaxWindowBitsOf (windowBits?_eq_some_iff.1 hbits)⟩
    · cases h
  · rintro ⟨rfl, h⟩
    cases h with
    | serverNoContextTakeover => rfl
    | clientNoContextTakeover => rfl
    | serverMaxWindowBits h =>
      have hread := windowBits?_eq_some_iff.2 h
      simp [ofParts?, Parameter.name, hread]
    | clientMaxWindowBits => rfl
    | clientMaxWindowBitsOf h =>
      have hread := windowBits?_eq_some_iff.2 h
      simp [ofParts?, Parameter.name, hread]

theorem parse?_eq_some_iff {cs : List Char} {p : Parameter} :
    parse? cs = some p ↔ Spells cs p := by
  constructor
  · intro h
    by_cases hmem : '=' ∈ cs
    · obtain ⟨name, v, rfl, hfree⟩ := List.eq_append_cons_of_mem hmem
      rw [parse?, splitFirst_append hfree] at h
      obtain ⟨hname, htakes⟩ := ofParts?_eq_some_iff.1 h
      exact .withValue hfree hname htakes
    · rw [parse?, splitFirst_eq_none hmem] at h
      obtain ⟨hname, htakes⟩ := ofParts?_eq_some_iff.1 h
      exact .alone hmem hname htakes
  · intro h
    cases h with
    | alone hfree hname h =>
      rw [parse?, splitFirst_eq_none hfree]
      exact ofParts?_eq_some_iff.2 ⟨hname, h⟩
    | withValue hfree hname h =>
      rw [parse?, splitFirst_append hfree]
      exact ofParts?_eq_some_iff.2 ⟨hname, h⟩

end Parameter

/-! ### Acceptable offers -/

/-- The offer names the extension and has these parameters. What is left of a part without white
space around it is its text; empty parts say nothing. -/
structure Acceptable (offer : List Char) (ps : List Parameter) : Prop where
  spelled : ∃ head parts, Pieces ';' offer (head :: parts) ∧
    sameIgnoringCase (trim head) name = true ∧
      List.Forall₂ Parameter.Spells ((parts.map trim).filter (· ≠ [])) ps
  distinct : (ps.map Parameter.name).Nodup

theorem parameters?_eq_some_iff {offer : List Char} {ps : List Parameter} :
    parameters? offer = some ps ↔ Acceptable offer ps := by
  obtain ⟨head, parts, hsplit⟩ := List.exists_cons_of_ne_nil (splitAll_ne_nil (· == ';') offer)
  have hspells : ((parts.map trim).filter (· ≠ [])).mapM Parameter.parse? = some ps ↔
      List.Forall₂ Parameter.Spells ((parts.map trim).filter (· ≠ [])) ps := by
    simp only [mapM_eq_some_iff, Parameter.parse?_eq_some_iff]
  rw [parameters?, hsplit, List.map_cons]
  dsimp only
  constructor
  · intro h
    split at h
    · next hname =>
      split at h
      · next qs hread =>
        split at h
        · next hdistinct =>
          obtain rfl := Option.some.inj h
          exact ⟨⟨head, parts, splitAll_eq_iff.1 hsplit, hname, hspells.1 hread⟩, hdistinct⟩
        · cases h
      · cases h
    · cases h
  · rintro ⟨⟨head', parts', hpieces, hname, hall⟩, hdistinct⟩
    obtain ⟨rfl, rfl⟩ := List.cons.inj (hsplit.symm.trans hpieces.eq_splitAll)
    rw [if_pos hname, hspells.2 hall]
    exact if_pos hdistinct

/-! ### The answer -/

/-- What the answer has of a parameter: its name and number if it concerns the server. -/
def Parameter.echo : Parameter → List Char
  | serverNoContextTakeover => ';' :: ' ' :: "server_no_context_takeover".toList
  | serverMaxWindowBits bits =>
    ';' :: ' ' :: ("server_max_window_bits=".toList ++ Numeral.ofNat bits)
  | clientNoContextTakeover | clientMaxWindowBits _ => []

theorem intercalate_cons_eq (sep w : List Char) (ws : List (List Char)) :
    List.intercalate sep (w :: ws) = w ++ ws.flatMap (sep ++ ·) := by
  induction ws generalizing w with
  | nil => simp
  | cons v ws ih => rw [List.intercalate_cons_cons, ih, List.flatMap_cons, ← List.append_assoc]; simp

theorem answer_eq (ps : List Parameter) : answer ps = name ++ ps.flatMap Parameter.echo := by
  have hsep : "; ".toList = [';', ' '] := by decide
  rw [answer, intercalate_cons_eq, hsep, List.append_cancel_left_eq]
  induction ps with
  | nil => rfl
  | cons p ps ih =>
    rw [List.flatMap_cons, ← ih]
    cases p <;> rfl

/-- Commas and semicolons are not in what is answered about a parameter. -/
theorem Parameter.free_answer {p : Parameter} {text : List Char} (h : p.answer? = some text) :
    ',' ∉ text ∧ ';' ∉ text := by
  have hdigits : ∀ {bits : Nat} {sep : Char}, sep.isDigit = false → sep ∉ Numeral.ofNat bits :=
    fun hsep hmem => Bool.false_ne_true (hsep.symm.trans (Numeral.isDigit_of_mem_ofNat hmem))
  cases p with
  | serverNoContextTakeover =>
    cases h
    decide
  | serverMaxWindowBits bits =>
    cases h
    exact ⟨List.not_mem_append (by decide) (hdigits (by decide)),
      List.not_mem_append (by decide) (hdigits (by decide))⟩
  | clientNoContextTakeover => cases h
  | clientMaxWindowBits bits => cases h

/-- What is answered about a parameter spells it. -/
theorem Parameter.Spells.answer {cs text : List Char} {p : Parameter} (h : Spells cs p)
    (htext : p.answer? = some text) : Spells text p := by
  obtain ⟨value, htakes⟩ : ∃ value, p.Takes value := by
    cases h with
    | alone _ _ h => exact ⟨none, h⟩
    | withValue _ _ h => exact ⟨_, h⟩
  cases htakes with
  | serverNoContextTakeover =>
    cases htext
    have hname : lower "server_no_context_takeover".toList =
        "server_no_context_takeover".toList := by decide
    exact .alone (by decide) hname .serverNoContextTakeover
  | clientNoContextTakeover => cases htext
  | @serverMaxWindowBits v bits hbits =>
    cases htext
    have hquote : ∀ c ∈ Numeral.ofNat bits, (c == '"') = false := fun c hc =>
      beq_eq_false_iff_ne.2 fun heq =>
        absurd (Numeral.isDigit_of_mem_ofNat hc) (by rw [heq]; decide)
    have hbare : bareValue (Numeral.ofNat bits) = Numeral.ofNat bits := by
      rw [bareValue, (isWord_ofNat bits).isPlain.trim_eq]
      exact trimBoth_eq_self (fun c hc => hquote c (List.mem_of_mem_head? hc))
        (fun c hc => hquote c (List.mem_of_mem_getLast? hc))
    have htakes : (serverMaxWindowBits bits).Takes (some (bareValue (Numeral.ofNat bits))) :=
      .serverMaxWindowBits (hbare.symm ▸ ⟨Numeral.denotes_ofNat bits, hbits.2⟩)
    have hname : lower (trim "server_max_window_bits".toList) = "server_max_window_bits".toList := by
      decide
    have hsign : "server_max_window_bits=".toList = "server_max_window_bits".toList ++ ['='] := by
      decide
    rw [hsign, List.append_assoc, List.singleton_append]
    exact .withValue (by decide) hname htakes
  | clientMaxWindowBits => cases htext
  | clientMaxWindowBitsOf => cases htext

/-- The parameters that concern the server. -/
def Parameter.Echoed (p : Parameter) : Bool :=
  p.answer?.isSome

theorem filterMap_filter_echoed (ps : List Parameter) :
    (ps.filter Parameter.Echoed).filterMap Parameter.answer? = ps.filterMap Parameter.answer? := by
  rw [List.filterMap_filter]
  refine List.filterMap_congr fun p _ => ?_
  cases h : p.answer? <;> simp [Parameter.Echoed, h]

theorem exists_spells_of_forall₂ {texts : List (List Char)} {ps : List Parameter}
    (h : List.Forall₂ Parameter.Spells texts ps) : ∀ p ∈ ps, ∃ cs, Parameter.Spells cs p := by
  induction h with
  | nil => exact nofun
  | cons hp _ ih => exact List.forall_mem_cons.2 ⟨⟨_, hp⟩, ih⟩

theorem forall₂_answers {ps : List Parameter} (h : ∀ p ∈ ps, ∃ cs, Parameter.Spells cs p) :
    List.Forall₂ Parameter.Spells (ps.filterMap Parameter.answer?)
      (ps.filter Parameter.Echoed) := by
  induction ps with
  | nil => exact .nil
  | cons p ps ih =>
    obtain ⟨⟨cs, hcs⟩, hrest⟩ := List.forall_mem_cons.1 h
    cases htext : p.answer? with
    | none =>
      rw [List.filterMap_cons_none htext, List.filter_cons_of_neg (by simp [Parameter.Echoed, htext])]
      exact ih hrest
    | some text =>
      rw [List.filterMap_cons_some htext, List.filter_cons_of_pos (by simp [Parameter.Echoed, htext])]
      exact .cons (hcs.answer htext) (ih hrest)

theorem pieces_answer (ps : List Parameter) :
    Pieces ';' (answer ps) (name :: (ps.filterMap Parameter.answer?).map (' ' :: ·)) where
  ne_nil := List.cons_ne_nil _ _
  free := by
    refine List.forall_mem_cons.2 ⟨by decide, fun w hw => ?_⟩
    obtain ⟨text, htext, rfl⟩ := List.mem_map.1 hw
    obtain ⟨p, -, hp⟩ := List.mem_filterMap.1 htext
    exact List.not_mem_cons_of_ne_of_not_mem (by decide) (Parameter.free_answer hp).2
  joined := by
    have hsep : "; ".toList = [';', ' '] := by decide
    rw [answer, hsep, intercalate_cons_eq, intercalate_cons_eq, List.flatMap_map]
    rfl

/-- What was answered can be offered, and has the parameters that were answered. -/
theorem Acceptable.answer {offer : List Char} {ps : List Parameter} (h : Acceptable offer ps) :
    Acceptable (answer ps) (ps.filter Parameter.Echoed) := by
  obtain ⟨⟨_, _, -, -, hall⟩, hdistinct⟩ := h
  refine ⟨⟨_, _, pieces_answer ps, by decide, ?_⟩, hdistinct.sublist (List.filter_sublist.map _)⟩
  have htrim : ∀ text ∈ ps.filterMap Parameter.answer?, (trim ∘ (' ' :: ·)) text = text := by
    intro text htext
    obtain ⟨p, -, hp⟩ := List.mem_filterMap.1 htext
    exact (Parameter.isWord_answer hp).isPlain.trim_space
  have hparts : (((ps.filterMap Parameter.answer?).map (' ' :: ·)).map trim).filter (· ≠ []) =
      ps.filterMap Parameter.answer? := by
    rw [List.map_map, List.map_congr_left htrim, List.map_id', List.filter_eq_self]
    intro text htext
    obtain ⟨p, -, hp⟩ := List.mem_filterMap.1 htext
    exact decide_eq_true (Parameter.isWord_answer hp).ne_nil
  rw [hparts]
  exact forall₂_answers (exists_spells_of_forall₂ hall)

theorem comma_notMem_answer (ps : List Parameter) : ',' ∉ answer ps := by
  rw [answer, intercalate_cons_eq]
  refine List.not_mem_append (by decide) fun hmem => ?_
  obtain ⟨text, htext, hmem⟩ := List.mem_flatMap.1 hmem
  obtain ⟨p, -, hp⟩ := List.mem_filterMap.1 htext
  exact List.not_mem_append (by decide) (Parameter.free_answer hp).1 hmem

/-! ### The offers -/

theorem offers_joined (w : List Char) (ws : List (List Char)) :
    offers [List.intercalate [','] (w :: ws)] = offers (w :: ws) := by
  rw [offers, List.flatMap_singleton, splitAll_intercalate, offers]

theorem parameters?_eq_none_iff {offer : List Char} :
    parameters? offer = none ↔ ∀ ps, ¬ Acceptable offer ps := by
  simp only [← parameters?_eq_some_iff, Option.eq_none_iff_forall_ne_some, ne_eq]

theorem negotiate_eq_some_iff {values : List (List Char)} {r : List Char} :
    negotiate values = some r ↔ ∃ before offer after ps,
      offers values = before ++ offer :: after ∧ (∀ o ∈ before, ∀ qs, ¬ Acceptable o qs) ∧
        Acceptable offer ps ∧ r = name ++ ps.flatMap Parameter.echo := by
  rw [negotiate, Option.map_eq_some_iff]
  constructor
  · rintro ⟨ps, hfind, rfl⟩
    obtain ⟨before, offer, after, hoffers, hps, hbefore⟩ := List.findSome?_eq_some_iff.1 hfind
    exact ⟨before, offer, after, ps, hoffers,
      fun o ho => parameters?_eq_none_iff.1 (hbefore o ho), parameters?_eq_some_iff.1 hps,
      answer_eq ps⟩
  · rintro ⟨before, offer, after, ps, hoffers, hbefore, hps, rfl⟩
    exact ⟨ps, List.findSome?_eq_some_iff.2 ⟨before, offer, after, hoffers,
      parameters?_eq_some_iff.2 hps, fun o ho => parameters?_eq_none_iff.2 (hbefore o ho)⟩,
      answer_eq ps⟩

theorem negotiate_eq_none_iff {values : List (List Char)} :
    negotiate values = none ↔ ∀ o ∈ offers values, ∀ ps, ¬ Acceptable o ps := by
  rw [negotiate, Option.map_eq_none_iff, List.findSome?_eq_none_iff]
  simp only [parameters?_eq_none_iff]

/-- Offers that nobody accepts are passed over. -/
theorem negotiate_insert {values others before bad after : List (List Char)}
    (hvalues : offers values = before ++ after) (hothers : offers others = before ++ bad ++ after)
    (hbad : ∀ o ∈ bad, ∀ ps, ¬ Acceptable o ps) : negotiate others = negotiate values := by
  have hnone : bad.findSome? parameters? = none :=
    List.findSome?_eq_none_iff.2 fun o ho => parameters?_eq_none_iff.2 (hbad o ho)
  rw [negotiate, negotiate, hvalues, hothers, List.findSome?_append, List.findSome?_append,
    List.findSome?_append, hnone, Option.or_none]

/-- An answer is the whole answer to itself. -/
theorem negotiate_answer {offer : List Char} {ps : List Parameter} (h : Acceptable offer ps) :
    negotiate [answer ps] = some (answer ps) := by
  have hoffers : offers [answer ps] = [answer ps] := by
    rw [offers, List.flatMap_singleton,
      splitAll_eq_singleton (beq_eq_false_of_notMem (comma_notMem_answer ps))]
  rw [negotiate, hoffers, List.findSome?_singleton, parameters?_eq_some_iff.2 h.answer,
    Option.map_some, answer, filterMap_filter_echoed, answer]

/-! ### Negotiation as a whole -/

/-- **The first acceptable offer is answered, and nothing else.** There is an answer exactly if some
offer is acceptable; then it names the extension and has, in their order, those parameters of the
first such offer that concern the server. Who offers what was answered is answered the same. It makes
no difference whether offers come in one value or in several, nor which unacceptable offers are among
them. -/
theorem negotiate_answers_first_acceptable (values : List (List Char)) :
    (∀ r, negotiate values = some r ↔ ∃ before offer after ps,
      offers values = before ++ offer :: after ∧ (∀ o ∈ before, ∀ qs, ¬ Acceptable o qs) ∧
        Acceptable offer ps ∧ r = name ++ ps.flatMap Parameter.echo) ∧
    (negotiate values = none ↔ ∀ o ∈ offers values, ∀ ps, ¬ Acceptable o ps) ∧
    (∀ r, negotiate values = some r → negotiate [r] = some r) ∧
    negotiate [List.intercalate [','] values] = negotiate values ∧
    (∀ before v w after, values = before ++ (v ++ ',' :: w) :: after →
      negotiate (before ++ v :: w :: after) = negotiate values) ∧
    ∀ before bad after others, offers values = before ++ after →
      offers others = before ++ bad ++ after → (∀ o ∈ bad, ∀ ps, ¬ Acceptable o ps) →
        negotiate others = negotiate values := by
  refine ⟨fun r => negotiate_eq_some_iff, negotiate_eq_none_iff, fun r h => ?_, ?_, ?_,
    fun before bad after others => negotiate_insert⟩
  · obtain ⟨_, offer, _, ps, -, -, hps, rfl⟩ := negotiate_eq_some_iff.1 h
    rw [← answer_eq]
    exact negotiate_answer hps
  · cases values with
    | nil => decide
    | cons w ws => rw [negotiate, offers_joined, negotiate]
  · rintro before v w after rfl
    have hoffers : offers (before ++ (v ++ ',' :: w) :: after) =
        offers (before ++ v :: w :: after) := by
      simp only [offers, List.flatMap_append, List.flatMap_cons, List.append_assoc,
        splitAll_append_cons (p := (· == ',')) (beq_self_eq_true ',')]
    rw [negotiate, negotiate, hoffers]

/-- An unknown extension, and then an offer with a quoted number. -/
theorem negotiate_answers_first_acceptable_of_quoted :
    let values := ["x-other".toList,
      "permessage-deflate; client_max_window_bits; Server_Max_Window_Bits=\"+010\"".toList]
    let r := "permessage-deflate; server_max_window_bits=10".toList
    negotiate values = some r ∧ negotiate [r] = some r := by
  intro values r
  have h : negotiate values = some r := by decide +kernel
  exact ⟨h, (negotiate_answers_first_acceptable values).2.2.1 r h⟩

end Switchyard.Extension
