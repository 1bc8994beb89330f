import Switchyard.Config.Properties
import Switchyard.Proofs.Text.Blank
import Switchyard.Proofs.Text.Numeral
import Switchyard.Proofs.Text.Split
import Switchyard.Proofs.Text.Utf8

/-!
# The number in a properties file

A properties text is a list of lines, each with one of two ends, and every line either gives a value to
the key of the number to listen at or says nothing about it. Only the values that are given count, and
of these only the first one (`resolve_reads`). So it does not matter what the other lines are and where
they stand, how lines end, and which blanks are around keys and values (`Alike`).
-/

namespace Switchyard.Properties

/-! ### Lines -/

/-- Stands between a key and its value. -/
def isSeparator (c : Char) : Bool :=
  c == '=' || c == ':'

/-- Begins a comment. -/
def IsMark (c : Char) : Prop :=
  c = '#' ∨ c = '!'

/-- The line gives the key of the number to listen at this value. -/
def Gives (line value : List Char) : Prop :=
  ∃ front sep back, Text.trim line = front ++ sep :: back ∧ (∀ c ∈ front, isSeparator c = false) ∧
    isSeparator sep = true ∧ Text.trim front = listenKey ∧ value = Text.trim back

/-- The line says nothing about the number to listen at. -/
inductive IsOther (line : List Char) : Prop
  | comment {c} : IsMark c → (Text.trim line).head? = some c → IsOther line
  | plain : (∀ c ∈ Text.trim line, isSeparator c = false) → IsOther line
  | key {front sep back} : Text.trim line = front ++ sep :: back →
      (∀ c ∈ front, isSeparator c = false) → isSeparator sep = true →
      Text.trim front ≠ listenKey → IsOther line

theorem isBlank_of_isSeparator {c : Char} (h : isSeparator c = true) : Text.isBlank c = false := by
  rcases Bool.or_eq_true_iff.1 h with h | h <;> rw [beq_iff_eq.1 h] <;> rfl

theorem keyValue?_of_mark {line : List Char} {c : Char} (hc : IsMark c)
    (h : (Text.trim line).head? = some c) : keyValue? line = none := by
  rw [keyValue?, if_pos]
  rcases hc with rfl | rfl
  · exact .inl h
  · exact .inr h

theorem keyValue?_of_plain {line : List Char} (h : ∀ c ∈ Text.trim line, isSeparator c = false) :
    keyValue? line = none := by
  unfold keyValue?
  dsimp only
  split
  · rfl
  · exact congrArg _ (Text.splitFirst_of_free h)

/-- A line with a separator is an entry unless it is a comment. -/
theorem keyValue?_of_cut {line front back : List Char} {sep : Char}
    (hmark : ∀ c, IsMark c → (Text.trim line).head? ≠ some c)
    (hline : Text.trim line = front ++ sep :: back) (hfront : ∀ c ∈ front, isSeparator c = false)
    (hsep : isSeparator sep = true) :
    keyValue? line = some (Text.trim front, Text.trim back) := by
  have hcut := Text.splitFirst_append_cons hsep hfront back
  rw [← hline] at hcut
  rw [keyValue?, if_neg (not_or.2 ⟨hmark _ (.inl rfl), hmark _ (.inr rfl)⟩)]
  exact congrArg _ hcut

theorem gives_iff {line value : List Char} :
    Gives line value ↔ keyValue? line = some (listenKey, value) := by
  constructor
  · rintro ⟨front, sep, back, hline, hfront, hsep, hkey, rfl⟩
    rw [← hkey]
    refine keyValue?_of_cut (fun c hc hhead => ?_) hline hfront hsep
    -- The first character is that of the key, as the trimmed line begins with no blank.
    cases front with
    | nil => cases hkey
    | cons d front =>
      obtain rfl : d = c := by
        rw [hline] at hhead
        exact Option.some.inj hhead
      have hblank : Text.isBlank d = false := by
        rcases hc with rfl | rfl <;> rfl
      have hfirst : (d :: front).take 1 = (Text.trim (d :: front)).take 1 :=
        (Text.take_eq_take_trim_iff Nat.one_pos (by rw [hkey]; decide)).2 (by simpa using hblank)
      rw [hkey] at hfirst
      obtain rfl : d = 's' := (List.cons.inj hfirst).1
      rcases hc with h | h <;> cases h
  · intro h
    by_cases hmark : ∃ c, IsMark c ∧ (Text.trim line).head? = some c
    · obtain ⟨c, hc, hhead⟩ := hmark
      rw [keyValue?_of_mark hc hhead] at h
      cases h
    · rcases Text.free_or_cut isSeparator (Text.trim line) with hfree | ⟨front, sep, back, hline,
        hfront, hsep⟩
      · rw [keyValue?_of_plain hfree] at h
        cases h
      · rw [keyValue?_of_cut (fun c hc hhead => hmark ⟨c, hc, hhead⟩) hline hfront hsep] at h
        obtain ⟨hkey, hvalue⟩ := Prod.mk.inj (Option.some.inj h)
        exact ⟨front, sep, back, hline, hfront, hsep, hkey, hvalue.symm⟩

theorem isOther_iff {line : List Char} : IsOther line ↔ ∀ value, ¬ Gives line value := by
  constructor
  · rintro h value hvalue
    rw [gives_iff] at hvalue
    rcases h with ⟨hc, hhead⟩ | hfree | ⟨hline, hfront, hsep, hkey⟩
    · rw [keyValue?_of_mark hc hhead] at hvalue
      cases hvalue
    · rw [keyValue?_of_plain hfree] at hvalue
      cases hvalue
    · by_cases hmark : ∃ c, IsMark c ∧ (Text.trim line).head? = some c
      · obtain ⟨c, hc, hhead⟩ := hmark
        rw [keyValue?_of_mark hc hhead] at hvalue
        cases hvalue
      · rw [keyValue?_of_cut (fun c hc hhead => hmark ⟨c, hc, hhead⟩) hline hfront hsep] at hvalue
        exact hkey (Prod.mk.inj (Option.some.inj hvalue)).1
  · intro h
    rcases Text.free_or_cut isSeparator (Text.trim line) with hfree | ⟨front, sep, back, hline,
      hfront, hsep⟩
    · exact .plain hfree
    · exact .key hline hfront hsep fun hkey =>
        h _ ⟨front, sep, back, hline, hfront, hsep, hkey, rfl⟩

theorem filterMap_keyValue_cons (line : List Char) (lines : List (List Char)) :
    (line :: lines).filterMap keyValue? = (keyValue? line).toList ++ lines.filterMap keyValue? := by
  cases h : keyValue? line with
  | none => exact List.filterMap_cons_none h
  | some e => exact List.filterMap_cons_some h

/-- The values that lines give to the key of the number to listen at, in order. -/
inductive Says : List (List Char) → List (List Char) → Prop
  | nil : Says [] []
  | other {line lines values} : IsOther line → Says lines values → Says (line :: lines) values
  | gives {line value lines values} : Gives line value → Says lines values →
      Says (line :: lines) (value :: values)

theorem exists_says (lines : List (List Char)) : ∃ values, Says lines values := by
  induction lines with
  | nil => exact ⟨[], .nil⟩
  | cons line lines ih =>
    obtain ⟨values, h⟩ := ih
    by_cases hline : ∃ value, Gives line value
    · obtain ⟨value, hvalue⟩ := hline
      exact ⟨value :: values, .gives hvalue h⟩
    · exact ⟨values, .other (isOther_iff.2 fun value hvalue => hline ⟨value, hvalue⟩) h⟩

theorem lookup_of_says {lines values : List (List Char)} (h : Says lines values) :
    (lines.filterMap keyValue?).lookup listenKey = values.head? := by
  induction h with
  | nil => rfl
  | @other line lines values hline _ ih =>
    rw [filterMap_keyValue_cons]
    cases hentry : keyValue? line with
    | none => exact ih
    | some e =>
      obtain ⟨key, value⟩ := e
      have hkey : listenKey ≠ key := by
        rintro rfl
        exact isOther_iff.1 hline value (gives_iff.2 hentry)
      rw [Option.toList_some, List.singleton_append, List.lookup_cons, beq_eq_false_iff_ne.2 hkey, ih]
  | gives hline =>
    rw [filterMap_keyValue_cons, gives_iff.1 hline, Option.toList_some, List.singleton_append,
      List.lookup_cons_self]
    rfl

/-! ### Texts as lines -/

/-- How a line ends. -/
inductive LineEnd where
  | feed
  | returnFeed
  deriving DecidableEq, Repr

/-- The characters at the end of a line. -/
def LineEnd.text : LineEnd → List Char
  | feed => ['\n']
  | returnFeed => ['\r', '\n']

/-- A text by its lines, the last of which has no end. -/
structure Layout where
  /-- The lines that end, and how. -/
  ended : List (List Char × LineEnd)
  last : List Char
  free_ended : ∀ line ∈ ended, '\n' ∉ line.1
  free_last : '\n' ∉ last

namespace Layout

/-- All lines. -/
def lines (l : Layout) : List (List Char) :=
  l.ended.map Prod.fst ++ [l.last]

/-- The text with these lines. -/
def text (l : Layout) : List Char :=
  l.ended.flatMap (fun (line, e) => line ++ e.text) ++ l.last

/-- Every text consists of lines. -/
theorem exists_layout (text : List Char) : ∃ l : Layout, l.text = text := by
  obtain ⟨n, hn⟩ : ∃ n, text.length = n := ⟨_, rfl⟩
  induction n using Nat.strongRecOn generalizing text with
  | _ n ih =>
    rcases Text.free_or_cut (· == '\n') text with hfree | ⟨line, sep, rest, rfl, hline, hsep⟩
    · refine ⟨⟨[], text, nofun, fun h => ?_⟩, rfl⟩
      exact absurd (hfree _ h) (by simp)
    · obtain rfl := beq_iff_eq.1 hsep
      have hlt : rest.length < n := by
        rw [← hn, List.length_append, List.length_cons]
        omega
      obtain ⟨l, rfl⟩ := ih rest.length hlt rest rfl
      have hnot : '\n' ∉ line := fun h => absurd (hline _ h) (by simp)
      refine ⟨⟨(line, .feed) :: l.ended, l.last, List.forall_mem_cons.2 ⟨hnot, l.free_ended⟩,
        l.free_last⟩, ?_⟩
      simp [text, LineEnd.text]

/-- The entry of a line does not depend on how it ends. -/
theorem keyValue?_concat_return (line : List Char) : keyValue? (line ++ ['\r']) = keyValue? line := by
  have htrim : Text.trim (line ++ ['\r']) = Text.trim line :=
    Text.trim_append (w := []) nofun (List.forall_mem_singleton.2 rfl) line
  unfold keyValue?
  rw [htrim]

theorem entries_append {line : List Char} (h : '\n' ∉ line) (e : LineEnd) (rest : List Char) :
    entries (line ++ e.text ++ rest) = (keyValue? line).toList ++ entries rest := by
  have hsplit {w : List Char} (hw : '\n' ∉ w) :
      Text.splitAll (· == '\n') (w ++ '\n' :: rest) = w :: Text.splitAll (· == '\n') rest :=
    Text.splitAll_append (p := (· == '\n')) (beq_self_eq_true '\n')
      (Text.beq_eq_false_of_notMem hw) rest
  unfold entries
  cases e with
  | feed =>
    rw [LineEnd.text, List.append_assoc, List.singleton_append, hsplit h, filterMap_keyValue_cons]
  | returnFeed =>
    have hreturn : '\n' ∉ line ++ ['\r'] := by simp [h]
    have hline : line ++ LineEnd.returnFeed.text ++ rest = line ++ ['\r'] ++ '\n' :: rest := by
      simp [LineEnd.text]
    rw [hline, hsplit hreturn, filterMap_keyValue_cons, keyValue?_concat_return]

theorem entries_text (l : Layout) : entries l.text = l.lines.filterMap keyValue? := by
  obtain ⟨ended, last, hended, hlast⟩ := l
  simp only [text, lines]
  induction ended with
  | nil =>
    rw [List.flatMap_nil, List.nil_append, entries, Text.splitAll_eq_singleton_iff.2 hlast]
    rfl
  | cons line ended ih =>
    obtain ⟨hline, hended⟩ := List.forall_mem_cons.1 hended
    rw [List.flatMap_cons, List.append_assoc, entries_append hline, ih hended, List.map_cons,
      List.cons_append, filterMap_keyValue_cons]

end Layout

theorem listenTcp?_of_says {l : Layout} {values : List (List Char)} (h : Says l.lines values) :
    listenTcp? l.text = values.head?.bind Numeral.uint16? := by
  rw [listenTcp?, l.entries_text, lookup_of_says h]

/-! ### What does not matter -/

/-- The line writes a key, a separator and a value, with any blanks around the two. -/
def Spells (key value line : List Char) : Prop :=
  ∃ w₁ w₂ sep w₃ w₄, (∀ w ∈ [w₁, w₂, w₃, w₄], ∀ c ∈ w, Text.isBlank c = true) ∧
    isSeparator sep = true ∧ line = w₁ ++ key ++ w₂ ++ sep :: (w₃ ++ value ++ w₄)

/-- Lines that differ in what does not matter: lines that say nothing stand on one side only or at other
places, and entries have other blanks around key and value, or the other separator. -/
inductive Alike : List (List Char) → List (List Char) → Prop
  | nil : Alike [] []
  | left {line lines lines'} : IsOther line → Alike lines lines' → Alike (line :: lines) lines'
  | right {line lines lines'} : IsOther line → Alike lines lines' → Alike lines (line :: lines')
  | keep {lines lines'} (line) : Alike lines lines' → Alike (line :: lines) (line :: lines')
  | entry {key value line line' lines lines'} : (∀ c ∈ key, isSeparator c = false) →
      Spells key value line → Spells key value line' → Alike lines lines' →
      Alike (line :: lines) (line' :: lines')

variable {key value line : List Char}

/-- What a line says depends on the trimmed key and the trimmed value. -/
theorem Spells.says (hkey : ∀ c ∈ key, isSeparator c = false) (h : Spells key value line) :
    Text.trim key = listenKey ∧ Gives line (Text.trim value) ∨
      Text.trim key ≠ listenKey ∧ IsOther line := by
  obtain ⟨w₁, w₂, sep, w₃, w₄, hblank, hsep, rfl⟩ := h
  simp only [List.forall_mem_cons, List.not_mem_nil, false_imp_iff, implies_true, and_true] at hblank
  obtain ⟨h₁, h₂, h₃, h₄⟩ := hblank
  have hfree {w : List Char} (hw : ∀ c ∈ w, Text.isBlank c = true) : ∀ c ∈ w, isSeparator c = false :=
    fun c hc => Bool.eq_false_iff.2 fun hs => by
      have hfalse := isBlank_of_isSeparator hs
      rw [hw c hc] at hfalse
      cases hfalse
  have hline := Text.trim_append_cons (isBlank_of_isSeparator hsep) (w₁ ++ key ++ w₂)
    (w₃ ++ value ++ w₄)
  have hfront : ∀ c ∈ (w₁ ++ key ++ w₂).dropWhile Text.isBlank, isSeparator c = false := by
    intro c hc
    have hmem := (List.dropWhile_sublist Text.isBlank).subset hc
    rw [List.mem_append, List.mem_append] at hmem
    rcases hmem with (hmem | hmem) | hmem
    · exact hfree h₁ c hmem
    · exact hkey c hmem
    · exact hfree h₂ c hmem
  have htrim : Text.trim ((w₁ ++ key ++ w₂).dropWhile Text.isBlank) = Text.trim key :=
    (Text.trim_dropWhile _).trans (Text.trim_append h₁ h₂ key)
  have hvalue : Text.trim value =
      Text.trim ((w₃ ++ value ++ w₄).reverse.dropWhile Text.isBlank).reverse :=
    ((Text.trim_reverse_dropWhile _).trans (Text.trim_append h₃ h₄ value)).symm
  by_cases hlisten : Text.trim key = listenKey
  · exact .inl ⟨hlisten, _, sep, _, hline, hfront, hsep, htrim.trans hlisten, hvalue⟩
  · exact .inr ⟨hlisten, .key hline hfront hsep (htrim ▸ hlisten)⟩

theorem Alike.exists_says {lines lines' : List (List Char)} (h : Alike lines lines') :
    ∃ values, Says lines values ∧ Says lines' values := by
  induction h with
  | nil => exact ⟨[], .nil, .nil⟩
  | left hline _ ih =>
    obtain ⟨values, h, h'⟩ := ih
    exact ⟨values, .other hline h, h'⟩
  | right hline _ ih =>
    obtain ⟨values, h, h'⟩ := ih
    exact ⟨values, h, .other hline h'⟩
  | keep line _ ih =>
    obtain ⟨values, h, h'⟩ := ih
    by_cases hline : ∃ value, Gives line value
    · obtain ⟨value, hvalue⟩ := hline
      exact ⟨value :: values, .gives hvalue h, .gives hvalue h'⟩
    · have hother := isOther_iff.2 fun value hvalue => hline ⟨value, hvalue⟩
      exact ⟨values, .other hother h, .other hother h'⟩
  | @entry key value line line' lines lines' hkey hline hline' _ ih =>
    obtain ⟨values, h, h'⟩ := ih
    rcases hline.says hkey, hline'.says hkey with
      ⟨⟨hlisten, hgives⟩ | ⟨hne, hother⟩, ⟨hlisten', hgives'⟩ | ⟨hne', hother'⟩⟩
    · exact ⟨_, .gives hgives h, .gives hgives' h'⟩
    · exact absurd hlisten hne'
    · exact absurd hlisten' hne
    · exact ⟨values, .other hother h, .other hother' h'⟩

/-! ### The number to listen at -/

/-- The number that values of the key amount to: the first one counts, even if it is none. -/
inductive Amounts : List (List Char) → UInt16 → Prop
  | none : Amounts [] 25565
  | number {value values} {n : UInt16} : Numeral.Denotes value n.toNat → Amounts (value :: values) n
  | malformed {value values} : (∀ n : UInt16, ¬ Numeral.Denotes value n.toNat) →
      Amounts (value :: values) 25565

theorem amounts_getD (values : List (List Char)) :
    Amounts values ((values.head?.bind Numeral.uint16?).getD defaultTcp) := by
  cases values with
  | nil => exact .none
  | cons value values =>
    rw [List.head?_cons, Option.bind_some]
    cases h : Numeral.uint16? value with
    | none =>
      refine .malformed fun n hn => ?_
      cases h.symm.trans (Numeral.uint16?_eq_some_iff.2 hn)
    | some n => exact .number (Numeral.uint16?_eq_some_iff.1 h)

/-- **The number in a properties file.** The setting counts if it is a number; then no file does. If not,
the first line that gives a value to the key decides, and gives the default if the value is no number,
whatever comes later; so does a file without such a line, one that is not UTF-8, and a missing one. Every
text is made of lines and says something in this sense. Two files whose lines are alike give the same
number: other lines, their places, the ends of lines and blanks around keys and values do not matter. -/
theorem resolve_reads (setting : Option (List Char)) :
    (∀ cs ∈ setting, ∀ n : UInt16, Numeral.Denotes (Text.trim cs) n.toNat →
      ∀ file, resolve setting file = n) ∧
    ((∀ cs ∈ setting, ∀ n : UInt16, ¬ Numeral.Denotes (Text.trim cs) n.toNat) →
      resolve setting none = 25565 ∧
      (∀ bs, (∀ text, bs ≠ Bytes.ofText text) → resolve setting (some bs) = 25565) ∧
      ∀ (l : Layout) values, Says l.lines values →
        Amounts values (resolve setting (some (Bytes.ofText l.text)))) ∧
    (∀ text, ∃ (l : Layout) (values : List (List Char)), l.text = text ∧ Says l.lines values) ∧
    ∀ l l' : Layout, Alike l.lines l'.lines →
      resolve setting (some (Bytes.ofText l.text)) = resolve setting (some (Bytes.ofText l'.text)) := by
  have hread {l : Layout} {values : List (List Char)} (h : Says l.lines values) :
      ((some (Bytes.ofText l.text)).bind Utf8.decode?).bind listenTcp? =
        values.head?.bind Numeral.uint16? := by
    rw [Option.bind_some, Utf8.decode?_ofText, Option.bind_some, listenTcp?_of_says h]
  refine ⟨fun cs hcs n hn file => ?_, fun hnone => ?_, fun text => ?_, fun l l' h => ?_⟩
  · have hsetting : (setting.bind fun s => Numeral.uint16? (Text.trim s)) = some n := by
      rw [Option.mem_def.1 hcs, Option.bind_some, Numeral.uint16?_eq_some_iff.2 hn]
    rw [resolve, hsetting, Option.some_or, Option.getD_some]
  · have hsetting : (setting.bind fun s => Numeral.uint16? (Text.trim s)) = none := by
      refine Option.bind_eq_none_iff.2 fun cs hcs => Option.eq_none_iff_forall_ne_some.2 fun n hn => ?_
      exact hnone cs hcs n (Numeral.uint16?_eq_some_iff.1 hn)
    refine ⟨?_, fun bs hbs => ?_, fun l values h => ?_⟩
    · rw [resolve, hsetting]
      rfl
    · have hdecode : Utf8.decode? bs = none :=
        Option.eq_none_iff_forall_ne_some.2 fun text htext => hbs text (Utf8.decode?_eq_some_iff.1 htext)
      rw [resolve, hsetting, Option.bind_some, hdecode]
      rfl
    · rw [resolve, hsetting, hread h, Option.none_or]
      exact amounts_getD values
  · obtain ⟨l, hl⟩ := Layout.exists_layout text
    obtain ⟨values, hvalues⟩ := exists_says l.lines
    exact ⟨l, values, hl, hvalues⟩
  · obtain ⟨values, hsays, hsays'⟩ := h.exists_says
    rw [resolve, resolve, hread hsays, hread hsays']

end Switchyard.Properties
