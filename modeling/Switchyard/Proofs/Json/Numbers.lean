import Mathlib.Data.List.Induction
import Mathlib.Data.List.TakeWhile
import Switchyard.Proofs.Json.Strings

/-!
# Reading numbers and words

A number is read up to where no number goes on (`reads_number`), and its value is the integer whose
decimal it is, since digits without needless zeros are the decimal of what they count to
(`toDigits_digitsValue`). With the strings these are the values without parts (`reads_scalar`).
-/

namespace Switchyard.Json

variable {cs rest w : List Char}

/-! ### Decimals -/

theorem digitChar_of_isDigit {c : Char} (h : c.isDigit = true) :
    c.toNat - '0'.toNat < 10 ∧ Nat.digitChar (c.toNat - '0'.toNat) = c := by
  obtain ⟨hlo, hhi⟩ : '0'.toNat ≤ c.toNat ∧ c.toNat ≤ '9'.toNat := by
    unfold Char.isDigit at h
    obtain ⟨hlo, hhi⟩ := Bool.and_eq_true_iff.1 h
    exact ⟨of_decide_eq_true hlo, of_decide_eq_true hhi⟩
  have hzero : '0'.toNat = 48 := rfl
  have hnine : '9'.toNat = 57 := rfl
  have hlt : c.toNat - '0'.toNat < 10 := by omega
  have hchar : ∀ d < 10, Nat.digitChar d = Char.ofNat (48 + d) := by decide
  refine ⟨hlt, ?_⟩
  rw [hchar _ hlt, show 48 + (c.toNat - '0'.toNat) = c.toNat by omega, Char.ofNat_toNat]

theorem digitsValue_concat (ds : List Char) (c : Char) :
    digitsValue (ds ++ [c]) = 10 * digitsValue ds + (c.toNat - '0'.toNat) := by
  simp only [digitsValue, List.foldl_append, List.foldl_cons, List.foldl_nil]

/-- Digits without needless zeros are the decimal of their value. -/
theorem toDigits_digitsValue {ds : List Char} (h : Integer ds) :
    Nat.toDigits 10 (digitsValue ds) = ds := by
  induction ds using List.reverseRecOn with
  | nil => exact absurd rfl h.1.1
  | append_singleton ds c ih =>
    obtain ⟨⟨-, hdigits⟩, hzero⟩ := h
    obtain ⟨hlt, hchar⟩ := digitChar_of_isDigit (hdigits c (by simp))
    rw [digitsValue_concat]
    rcases ds with - | ⟨d, ds⟩
    · rw [show digitsValue [] = 0 from rfl, Nat.mul_zero, Nat.zero_add, Nat.toDigits_of_lt_base hlt, hchar]
      rfl
    · have hfirst : d ≠ '0' := by
        rintro rfl
        simpa using hzero _ rfl
      have hds := ih ⟨⟨List.cons_ne_nil _ _, fun e he => hdigits e (List.mem_append_left _ he)⟩,
        fun behind h => absurd (List.cons.inj h).1 hfirst⟩
      have hpos : digitsValue (d :: ds) ≠ 0 := by
        intro h0
        rw [h0] at hds
        exact hfirst (List.cons.inj hds).1.symm
      rw [Nat.toDigits_of_base_le (by decide) (by omega), Nat.mul_add_div (by decide),
        Nat.div_eq_of_lt hlt, Nat.add_zero, hds, Nat.mul_add_mod, Nat.mod_eq_of_lt hlt, hchar]

theorem digitsValue_toDigits (n : Nat) : digitsValue (Nat.toDigits 10 n) = n :=
  Nat.ofDigitChars_toDigits (by decide) (by decide)

theorem toList_toString (n : Int) :
    (toString n).toList = (if n < 0 then ['-'] else []) ++ Nat.toDigits 10 n.natAbs := by
  cases n with
  | ofNat n => exact Nat.toList_repr
  | negSucc n =>
    show ("-" ++ (n + 1).repr).toList = _
    rw [String.toList_append, Nat.toList_repr, if_pos (Int.negSucc_lt_zero n)]
    rfl

theorem Digits.isDigit_of_cons {c : Char} (h : Digits (c :: cs)) : c.isDigit = true :=
  h.2 c List.mem_cons_self

/-- Which integer a number without fraction and exponent is. -/
theorem signedValue_eq_some_iff {ds : List Char} (h : Integer ds) {negative : Bool} {n : Int} :
    signedValue negative (digitsValue ds) = some n ↔
      (if negative then ['-'] else []) ++ ds = (toString n).toList := by
  have hvalue := toDigits_digitsValue h
  have hback {n : Int} (hds : ds = Nat.toDigits 10 n.natAbs) : digitsValue ds = n.natAbs := by
    rw [hds, digitsValue_toDigits]
  rw [toList_toString]
  cases negative with
  | false =>
    simp only [signedValue, Bool.false_eq_true, if_false, List.nil_append, Option.some.injEq]
    constructor
    · rintro rfl
      rw [if_neg (Int.not_lt.2 (Int.natCast_nonneg _)), Int.natAbs_natCast, hvalue]
      rfl
    · intro hds
      split at hds
      · subst hds
        cases h.1.isDigit_of_cons
      · have := hback hds
        omega
  | true =>
    simp only [signedValue, if_true, List.singleton_append]
    constructor
    · intro hn
      split at hn
      · cases hn
      · obtain rfl := Option.some.inj hn
        rw [if_pos (by omega), Int.natAbs_neg, Int.natAbs_natCast, hvalue]
        rfl
    · intro hds
      split at hds
      · have := hback (List.cons.inj hds).2
        rw [if_neg (by omega)]
        congr 1
        omega
      · have hdigit := Nat.isDigit_of_mem_toDigits (b := 10) (n := n.natAbs) (c := '-') (by decide)
          (by decide) (by rw [← List.nil_append (Nat.toDigits _ _), ← hds]; exact List.mem_cons_self)
        cases hdigit

/-! ### Numbers -/

/-- No digit is at the front of the text. -/
def StopsDigits (cs : List Char) : Prop :=
  ∀ c ∈ cs.head?, c.isDigit = false

/-- Neither is a fraction. -/
def StopsFraction (cs : List Char) : Prop :=
  ∀ c ∈ cs.head?, c.isDigit = false ∧ c ≠ '.'

theorem plain_digits? (cs : List Char) : plain (digits? cs) =
    if cs.takeWhile Char.isDigit = [] then none
    else some (cs.takeWhile Char.isDigit, cs.dropWhile Char.isDigit) := by
  cases cs with
  | nil => rfl
  | cons c cs =>
    rw [digits?, List.takeWhile_cons, List.dropWhile_cons]
    by_cases hc : c.isDigit = true
    · rw [if_pos (show isDigit c = true from hc), if_pos hc, if_pos hc, if_neg (List.cons_ne_nil _ _)]
      rfl
    · rw [if_neg (show ¬ isDigit c = true from hc), if_neg hc, if_pos rfl]
      rfl

theorem reads_digits (n : Nat) :
    Reads (fun cs => plain (digits? cs)) (fun w ds => ds = w ∧ Digits w) StopsDigits n where
  sound {cs rest ds} h := by
    rw [plain_digits?] at h
    split at h
    · cases h
    · next hne =>
      cases h
      exact ⟨_, List.takeWhile_append_dropWhile.symm, rfl, hne, fun c hc => List.mem_takeWhile_imp hc⟩
  complete {w rest ds} hw _ hrest := by
    obtain ⟨rfl, hne, hdigits⟩ := hw
    have hnone : rest.takeWhile Char.isDigit = [] ∧ rest.dropWhile Char.isDigit = rest := by
      cases rest with
      | nil => exact ⟨rfl, rfl⟩
      | cons c rest =>
        have hc := Bool.eq_false_iff.1 (hrest c rfl)
        exact ⟨List.takeWhile_cons_of_neg hc, List.dropWhile_cons_of_neg hc⟩
    rw [plain_digits?, List.takeWhile_append_of_pos hdigits, List.dropWhile_append_of_pos hdigits,
      hnone.1, hnone.2, List.append_nil, if_neg hne]

theorem integerDigits?_of_ne (h : ∀ behind, cs ≠ '0' :: behind) : integerDigits? cs = digits? cs := by
  unfold integerDigits?
  split
  · exact (h _ rfl).elim
  · rfl

theorem reads_integerDigits (n : Nat) :
    Reads (fun cs => plain (integerDigits? cs)) (fun w ds => ds = w ∧ Integer w) StopsDigits n where
  sound {cs rest ds} h := by
    obtain ⟨_, hread⟩ := plain_eq_some.1 h
    unfold integerDigits? at hread
    split at hread
    · cases hread
      have hdigits : Digits ['0'] := ⟨List.cons_ne_nil _ _, List.forall_mem_singleton.2 rfl⟩
      exact ⟨['0'], rfl, rfl, hdigits, fun _ hbehind => (List.cons.inj hbehind).2.symm⟩
    · next hzero =>
      obtain ⟨w, rfl, rfl, hw⟩ := (reads_digits n).sound (plain_eq_some.2 ⟨_, hread⟩)
      refine ⟨_, rfl, rfl, hw, ?_⟩
      rintro behind rfl
      exact (hzero _ rfl).elim
  complete {w rest ds} hw hlen hrest := by
    obtain ⟨rfl, hdigits, hzero⟩ := hw
    obtain ⟨c, cs, rfl⟩ := List.exists_cons_of_ne_nil hdigits.1
    by_cases hc : c = '0'
    · subst hc
      obtain rfl := hzero _ rfl
      rfl
    · have hne : ∀ behind, c :: cs ++ rest ≠ '0' :: behind := fun behind h => hc (List.cons.inj h).1
      rw [integerDigits?_of_ne hne]
      exact (reads_digits n).complete ⟨rfl, hdigits⟩ hlen hrest

theorem stopsDigits_of_fraction {fraction : List Char} (h : Fraction fraction)
    (hrest : StopsFraction rest) : StopsDigits (fraction ++ rest) := by
  intro c hc
  rcases h with rfl | ⟨ds, rfl, -⟩
  · exact (hrest c hc).1
  · cases hc
    rfl

theorem stopsFraction_of_exponent {exponent : List Char} (h : Exponent exponent)
    (hrest : Stops rest) : StopsFraction (exponent ++ rest) := by
  intro c hc
  rcases h with rfl | ⟨e, sign, ds, rfl, he, -⟩
  · exact ⟨(hrest c hc).1, (hrest c hc).2.1⟩
  · cases hc
    rcases he with rfl | rfl <;> decide

theorem plain_fraction?_dot (cs : List Char) :
    plain (fraction? ('.' :: cs)) = (plain (digits? cs)).map fun (_, rest) => (true, rest) :=
  plain_map (fun _ => true) (fun _ => rfl) (digits? cs)

theorem plain_fraction?_of_ne (h : ∀ behind, cs ≠ '.' :: behind) :
    plain (fraction? cs) = some (false, cs) := by
  unfold fraction?
  split
  · exact (h _ rfl).elim
  · rfl

theorem reads_fraction (n : Nat) :
    Reads (fun cs => plain (fraction? cs)) (fun w b => b = decide (w ≠ []) ∧ Fraction w)
      StopsFraction n where
  sound {cs rest b} h := by
    by_cases hdot : ∃ behind, cs = '.' :: behind
    · obtain ⟨behind, rfl⟩ := hdot
      rw [plain_fraction?_dot] at h
      obtain ⟨⟨ds, _⟩, hread, ⟨⟩⟩ := Option.map_eq_some_iff.1 h
      obtain ⟨_, rfl, rfl, hds⟩ := (reads_digits n).sound hread
      exact ⟨'.' :: ds, rfl, rfl, .inr ⟨ds, rfl, hds⟩⟩
    · rw [plain_fraction?_of_ne fun behind h => hdot ⟨behind, h⟩] at h
      cases h
      exact ⟨[], rfl, rfl, .inl rfl⟩
  complete {w rest b} hw _ hrest := by
    obtain ⟨rfl, rfl | ⟨ds, rfl, hds⟩⟩ := hw
    · exact plain_fraction?_of_ne fun behind h => (hrest '.' (congrArg List.head? h)).2 rfl
    · have hread := (reads_digits _).complete ⟨rfl, hds⟩ (Nat.le_refl _) fun c hc => (hrest c hc).1
      rw [List.cons_append, plain_fraction?_dot, hread]
      rfl

theorem skipSign_of_digit (h : ∀ c ∈ cs.head?, c.isDigit = true) : (skipSign cs).1 = cs := by
  unfold skipSign
  split
  · cases h '+' rfl
  · cases h '-' rfl
  · rfl

theorem exists_sign (cs : List Char) : ∃ sign, cs = sign ++ (skipSign cs).1 ∧
    (sign = [] ∨ sign = ['+'] ∨ sign = ['-']) := by
  unfold skipSign
  split
  · exact ⟨['+'], rfl, .inr (.inl rfl)⟩
  · exact ⟨['-'], rfl, .inr (.inr rfl)⟩
  · exact ⟨[], rfl, .inl rfl⟩

theorem plain_exponent?_cons {c : Char} (hc : c = 'e' ∨ c = 'E') (cs : List Char) :
    plain (exponent? (c :: cs)) =
      (plain (digits? (skipSign cs).1)).map fun (_, rest) => (true, rest) := by
  rw [exponent?, if_pos hc]
  exact plain_map (fun _ => true) (fun _ => rfl) (digits? (skipSign cs).1)

theorem plain_exponent?_of_ne (h : ∀ c ∈ cs.head?, ¬ (c = 'e' ∨ c = 'E')) :
    plain (exponent? cs) = some (false, cs) := by
  unfold exponent?
  split
  · next c behind =>
    rw [if_neg (h c rfl)]
    rfl
  · rfl

theorem reads_exponent (n : Nat) :
    Reads (fun cs => plain (exponent? cs)) (fun w b => b = decide (w ≠ []) ∧ Exponent w) Stops n where
  sound {cs rest b} h := by
    by_cases he : ∃ c behind, cs = c :: behind ∧ (c = 'e' ∨ c = 'E')
    · obtain ⟨c, behind, rfl, hc⟩ := he
      rw [plain_exponent?_cons hc] at h
      obtain ⟨⟨ds, _⟩, hread, ⟨⟩⟩ := Option.map_eq_some_iff.1 h
      obtain ⟨_, hdigits, rfl, hds⟩ := (reads_digits n).sound hread
      obtain ⟨sign, hbehind, hsign⟩ := exists_sign behind
      refine ⟨c :: (sign ++ ds), ?_, rfl, .inr ⟨c, sign, ds, rfl, hc, hsign, hds⟩⟩
      rw [List.cons_append, List.append_assoc, ← hdigits, ← hbehind]
    · have hne : ∀ c ∈ cs.head?, ¬ (c = 'e' ∨ c = 'E') := fun c hc h => by
        obtain ⟨behind, hcs⟩ := List.head?_eq_some_iff.1 hc
        exact he ⟨c, behind, hcs, h⟩
      rw [plain_exponent?_of_ne hne] at h
      cases h
      exact ⟨[], rfl, rfl, .inl rfl⟩
  complete {w rest b} hw _ hrest := by
    obtain ⟨rfl, rfl | ⟨c, sign, ds, rfl, hc, hsign, hds⟩⟩ := hw
    · exact plain_exponent?_of_ne fun c hc he => he.elim (hrest c hc).2.2.1 (hrest c hc).2.2.2
    · have hskip : (skipSign (sign ++ (ds ++ rest))).1 = ds ++ rest := by
        rcases hsign with rfl | rfl | rfl
        · refine skipSign_of_digit ?_
          obtain ⟨d, ds, rfl⟩ := List.exists_cons_of_ne_nil hds.1
          rintro _ ⟨⟩
          exact hds.isDigit_of_cons
        · rfl
        · rfl
      have hread := (reads_digits _).complete ⟨rfl, hds⟩ (Nat.le_refl _) fun c hc => (hrest c hc).1
      rw [List.cons_append, List.append_assoc, plain_exponent?_cons hc, hskip, hread]
      rfl

theorem plain_unsigned (negative : Bool) (cs : List Char) : plain (unsigned negative cs) = do
    let (ds, rest) ← plain (integerDigits? cs)
    let (hasFraction, rest) ← plain (fraction? rest)
    let (hasExponent, rest) ← plain (exponent? rest)
    return (if hasFraction ∨ hasExponent then none else signedValue negative (digitsValue ds), rest) := by
  unfold unsigned
  rcases integerDigits? cs with - | ⟨ds, r, hr⟩
  · rfl
  · show plain (Option.bind (fraction? r) _) = Option.bind (plain (fraction? r)) _
    rcases fraction? r with - | ⟨f, s, hs⟩
    · rfl
    · show plain (Option.bind (exponent? s) _) = Option.bind (plain (exponent? s)) _
      rcases exponent? s with - | ⟨e, t, ht⟩ <;> rfl

theorem isDigit_or_eq_of_mem_toString {c : Char} {m : Int} (h : c ∈ (toString m).toList) :
    c.isDigit = true ∨ c = '-' := by
  rw [toList_toString, List.mem_append] at h
  rcases h with h | h
  · split at h
    · exact .inr (List.mem_singleton.1 h)
    · cases h
  · exact .inl (Nat.isDigit_of_mem_toDigits (by decide) (by decide) h)

/-- The value that is read for a number is the integer whose decimal it is. -/
theorem value_eq_some_iff {ds fraction exponent : List Char} (hds : Integer ds)
    (hfraction : Fraction fraction) (hexponent : Exponent exponent) (negative : Bool) (m : Int) :
    (if decide (fraction ≠ []) ∨ decide (exponent ≠ []) then none
      else signedValue negative (digitsValue ds)) = some m ↔
      (if negative then ['-'] else []) ++ (ds ++ (fraction ++ exponent)) = (toString m).toList := by
  have hnot {c : Char} (hc : c = '.' ∨ c = 'e' ∨ c = 'E')
      (hmem : c ∈ fraction ++ exponent) : ¬ (if negative then ['-'] else []) ++
        (ds ++ (fraction ++ exponent)) = (toString m).toList := fun h => by
    have hdigit := isDigit_or_eq_of_mem_toString
      (h ▸ List.mem_append_right _ (List.mem_append_right _ hmem))
    rcases hc with rfl | rfl | rfl <;> exact absurd hdigit (by decide)
  rcases hfraction with rfl | ⟨fs, rfl, -⟩
  · rcases hexponent with rfl | ⟨c, sign, es, rfl, hc, -⟩
    · simpa using signedValue_eq_some_iff hds
    · simpa using hnot (c := c) (.inr hc) List.mem_cons_self
  · simpa using hnot (c := '.') (.inl rfl) (List.mem_append_left _ List.mem_cons_self)

/-- A number behind its sign, and the value with the sign. -/
def Unsigned (negative : Bool) (w : List Char) (value : Option Int) : Prop :=
  ∃ ds fraction exponent, w = ds ++ (fraction ++ exponent) ∧ Integer ds ∧ Fraction fraction ∧
    Exponent exponent ∧
    ∀ m, value = some m ↔ (if negative then ['-'] else []) ++ w = (toString m).toList

theorem reads_unsigned (negative : Bool) (n : Nat) :
    Reads (fun cs => plain (unsigned negative cs)) (Unsigned negative) Stops n where
  sound {cs rest value} h := by
    rw [plain_unsigned] at h
    obtain ⟨⟨ds, r⟩, hread, h⟩ := Option.bind_eq_some_iff.1 h
    obtain ⟨⟨b, s⟩, hread', h⟩ := Option.bind_eq_some_iff.1 h
    obtain ⟨⟨b', t⟩, hread'', h⟩ := Option.bind_eq_some_iff.1 h
    obtain ⟨ds, rfl, rfl, hds⟩ := (reads_integerDigits n).sound hread
    obtain ⟨fraction, rfl, rfl, hfraction⟩ := (reads_fraction n).sound hread'
    obtain ⟨exponent, rfl, rfl, hexponent⟩ := (reads_exponent n).sound hread''
    cases h
    refine ⟨ds ++ (fraction ++ exponent), ?_, ds, fraction, exponent, rfl, hds, hfraction, hexponent, ?_⟩
    · simp only [List.append_assoc]
    · exact value_eq_some_iff hds hfraction hexponent negative
  complete {w rest value} hw _ hrest := by
    obtain ⟨ds, fraction, exponent, rfl, hds, hfraction, hexponent, hvalue⟩ := hw
    have hstops := stopsFraction_of_exponent hexponent hrest
    have hread := (reads_integerDigits _).complete ⟨rfl, hds⟩ (Nat.le_refl _)
      (stopsDigits_of_fraction hfraction hstops)
    have hread' := (reads_fraction _).complete ⟨rfl, hfraction⟩ (Nat.le_refl _) hstops
    have hread'' := (reads_exponent _).complete ⟨rfl, hexponent⟩ (Nat.le_refl _) hrest
    have hsame := Option.ext fun m =>
      (hvalue m).trans (value_eq_some_iff hds hfraction hexponent negative m).symm
    have hcs : ds ++ (fraction ++ exponent) ++ rest = ds ++ (fraction ++ (exponent ++ rest)) := by
      simp only [List.append_assoc]
    rw [hcs]
    simp only [plain_unsigned, hread, hread', hread'', hsame, Option.bind_eq_bind, Option.bind_some,
      Option.pure_def]

theorem plain_readNumber_minus (cs : List Char) :
    plain (readNumber ('-' :: cs)) = plain (unsigned true cs) :=
  plain_map_self (by intro x; rfl) (unsigned true cs)

theorem plain_readNumber_of_ne (h : ∀ behind, cs ≠ '-' :: behind) :
    plain (readNumber cs) = plain (unsigned false cs) := by
  unfold readNumber
  split
  · exact (h _ rfl).elim
  · rfl

theorem reads_number (n : Nat) : Reads (fun cs => plain (readNumber cs)) Number Stops n where
  sound {cs rest value} h := by
    by_cases hminus : ∃ behind, cs = '-' :: behind
    · obtain ⟨behind, rfl⟩ := hminus
      rw [plain_readNumber_minus] at h
      obtain ⟨w, rfl, ds, fraction, exponent, rfl, hds, hfraction, hexponent, hvalue⟩ :=
        (reads_unsigned true n).sound h
      exact ⟨'-' :: (ds ++ (fraction ++ exponent)), rfl,
        ⟨['-'], ds, fraction, exponent, rfl, .inr rfl, hds, hfraction, hexponent⟩, hvalue⟩
    · rw [plain_readNumber_of_ne fun behind h => hminus ⟨behind, h⟩] at h
      obtain ⟨w, rfl, ds, fraction, exponent, rfl, hds, hfraction, hexponent, hvalue⟩ :=
        (reads_unsigned false n).sound h
      exact ⟨ds ++ (fraction ++ exponent), rfl,
        ⟨[], ds, fraction, exponent, rfl, .inl rfl, hds, hfraction, hexponent⟩, hvalue⟩
  complete {w rest value} hw _ hrest := by
    obtain ⟨⟨sign, ds, fraction, exponent, rfl, rfl | rfl, hds, hfraction, hexponent⟩, hvalue⟩ := hw
    · have hread := (reads_unsigned false _).complete
        ⟨ds, fraction, exponent, rfl, hds, hfraction, hexponent, hvalue⟩ (Nat.le_refl _) hrest
      rw [List.nil_append, plain_readNumber_of_ne, hread]
      obtain ⟨c, ds, rfl⟩ := List.exists_cons_of_ne_nil hds.1.1
      rintro behind h
      cases (List.cons.inj h).1 ▸ hds.1.isDigit_of_cons
    · have hread := (reads_unsigned true _).complete
        ⟨ds, fraction, exponent, rfl, hds, hfraction, hexponent, hvalue⟩ (Nat.le_refl _) hrest
      exact (plain_readNumber_minus _).trans hread

/-! ### Values without parts -/

theorem Number.exists_first {v : Option Int} (h : Number w v) :
    ∃ c cs, w = c :: cs ∧ (c = '-' ∨ c.isDigit = true) := by
  obtain ⟨⟨sign, ds, _, _, rfl, rfl | rfl, ⟨hds, -⟩, -⟩, -⟩ := h
  · obtain ⟨c, ds, rfl⟩ := List.exists_cons_of_ne_nil hds.1
    exact ⟨c, _, rfl, .inr hds.isDigit_of_cons⟩
  · exact ⟨'-', _, rfl, .inl rfl⟩

theorem Quoted.exists_first {t : Option (List Char)} (h : Quoted w t) : ∃ cs, w = '"' :: cs := by
  cases h <;> exact ⟨_, rfl⟩

theorem plain_scalar_quote (cs : List Char) : plain (scalar ('"' :: cs)) =
    (plain (readString ('"' :: cs))).map fun (text, rest) => (.string text, rest) :=
  plain_map Json.string (fun _ => rfl) (readString ('"' :: cs))

theorem plain_scalar_number {c : Char} (hc : c = '-' ∨ isDigit c = true) (cs : List Char) :
    plain (scalar (c :: cs)) =
      (plain (readNumber (c :: cs))).map fun (n, rest) => (.number n, rest) := by
  have hquote : c ≠ '"' := by
    rintro rfl
    exact absurd hc (by decide)
  unfold scalar
  split
  · next h => exact (hquote (Option.some.inj h)).elim
  · next d _ h =>
    obtain rfl := Option.some.inj h
    rw [if_pos hc]
    exact plain_map Json.number (fun _ => rfl) (readNumber (c :: cs))
  · next h => cases h

theorem plain_scalar_word {c : Char} (hquote : c ≠ '"') (hc : ¬ (c = '-' ∨ isDigit c = true))
    (cs : List Char) : plain (scalar (c :: cs)) = plain (literal (c :: cs)) := by
  unfold scalar
  split
  · next h => exact (hquote (Option.some.inj h)).elim
  · next d _ h =>
    obtain rfl := Option.some.inj h
    rw [if_neg hc]
  · next h => cases h

theorem reads_scalar (n : Nat) : Reads (fun cs => plain (scalar cs)) Scalar Stops n where
  sound {cs rest v} h := by
    match cs with
    | [] => cases h
    | c :: cs =>
      by_cases hquote : c = '"'
      · subst hquote
        rw [plain_scalar_quote] at h
        obtain ⟨⟨t, _⟩, hread, ⟨⟩⟩ := Option.map_eq_some_iff.1 h
        obtain ⟨w, hcs, hw⟩ := (reads_string Stops n).sound hread
        exact ⟨w, hcs, .string hw⟩
      · by_cases hc : c = '-' ∨ isDigit c = true
        · rw [plain_scalar_number hc] at h
          obtain ⟨⟨t, _⟩, hread, ⟨⟩⟩ := Option.map_eq_some_iff.1 h
          obtain ⟨w, hcs, hw⟩ := (reads_number n).sound hread
          exact ⟨w, hcs, .number hw⟩
        · rw [plain_scalar_word hquote hc] at h
          obtain ⟨_, hread⟩ := plain_eq_some.1 h
          obtain ⟨⟨word, v'⟩, hmem, hread⟩ := List.exists_of_findSome?_eq_some hread
          dsimp only at hread
          split at hread
          · next hword =>
            cases hread
            obtain ⟨⟨behind, hcs⟩, -⟩ := hword
            refine ⟨word, ?_, ?_⟩
            · rw [← hcs, List.drop_left]
            · simp only [literals, List.mem_cons, Prod.mk.injEq, List.not_mem_nil, or_false] at hmem
              obtain ⟨rfl, rfl⟩ | ⟨rfl, rfl⟩ | ⟨rfl, rfl⟩ := hmem
              · exact .nullWord
              · exact .trueWord
              · exact .falseWord
          · cases hread
  complete {w rest v} hw hlen hrest := by
    cases hw with
    | nullWord => rfl
    | trueWord => rfl
    | falseWord => rfl
    | number hw =>
      have hread := (reads_number n).complete hw hlen hrest
      obtain ⟨c, cs, rfl, hc⟩ := hw.exists_first
      rw [List.cons_append] at hread ⊢
      rw [plain_scalar_number hc, hread]
      rfl
    | string hw =>
      have hread := (reads_string Stops n).complete hw hlen hrest
      obtain ⟨cs, rfl⟩ := hw.exists_first
      rw [List.cons_append] at hread ⊢
      rw [plain_scalar_quote, hread]
      rfl

end Switchyard.Json
