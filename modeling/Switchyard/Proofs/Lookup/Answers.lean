import Switchyard.Lookup.NameAnswer
import Switchyard.Proofs.Json.Members
import Switchyard.Proofs.Json.Reading
import Switchyard.Proofs.Json.Writing
import Switchyard.Proofs.Text.Split

/-!
# Reading the answer to a lookup

Which texts represent which answers (`NameAnswer.Represents`), and what is wrong with the documents that
represent none (`NameAnswer.Faulty`). The members of an object may come in any order, with others
between them; those that are known may not be missing, nor come twice, nor be anything but what they have
to be. The address in a text depends on nothing but the answer (`NameAnswer.firstAddress?_reads`).
-/

namespace Switchyard

/-! ### Records -/

namespace NameRecord

variable {v : Json} {r : NameRecord}

/-- A number of 16 bits. -/
def IsKind (v : Json) : Prop :=
  ∃ n : Int, v = .number (some n) ∧ 0 ≤ n ∧ n ≤ 0xffff

/-- A text. -/
def IsData (v : Json) : Prop :=
  ∃ t, v = .string (some t)

/-- The value describes the record. It is an object with the kind and the data, and with any other
members, or an array of the two. -/
inductive Describes : Json → NameRecord → Prop
  | object {ms : List (Option (List Char) × Json)} {r : NameRecord} (hkeys : Json.Keyed ms)
    (hkind : Json.Has "type".toList (.number (some r.kind)) ms)
    (hdata : Json.Has "data".toList (.string (some r.data)) ms)
    (hrange : 0 ≤ r.kind ∧ r.kind ≤ 0xffff) : Describes (.object ms) r
  | array {r : NameRecord} (hrange : 0 ≤ r.kind ∧ r.kind ≤ 0xffff) :
    Describes (.array [.number (some r.kind), .string (some r.data)]) r

/-- The value describes no record, and why. -/
inductive Faulty : Json → Prop
  /-- A key is no text. -/
  | key {ms : List (Option (List Char) × Json)} (hkeys : ¬ Json.Keyed ms) : Faulty (.object ms)
  /-- A known member is missing. -/
  | missing {ms : List (Option (List Char) × Json)}
    (h : Json.Lacks "type".toList ms ∨ Json.Lacks "data".toList ms) : Faulty (.object ms)
  /-- The kind comes twice or is no number of 16 bits. -/
  | kind {ms : List (Option (List Char) × Json)} (h : Json.Spoiled "type".toList IsKind ms) :
    Faulty (.object ms)
  /-- The data comes twice or is no text. -/
  | data {ms : List (Option (List Char) × Json)} (h : Json.Spoiled "data".toList IsData ms) :
    Faulty (.object ms)
  /-- The array is not one of a kind and data. -/
  | array {vs : List Json} (h : ∀ kind data, vs = [kind, data] → IsKind kind → ¬ IsData data) :
    Faulty (.array vs)
  /-- The value is neither an object nor an array. -/
  | other {v : Json} (hobject : ∀ ms, v ≠ .object ms) (harray : ∀ vs, v ≠ .array vs) : Faulty v

theorem kind?_eq_some_iff {n : Int} :
    kind? v = some n ↔ v = .number (some n) ∧ 0 ≤ n ∧ n ≤ 0xffff :=
  Json.integer?_eq_some_iff

theorem describes_of_ofJson? (h : ofJson? v = some r) : Describes v r := by
  unfold ofJson? at h
  split at h
  · next ms =>
    split at h
    · next hkeys =>
      obtain ⟨kind?, hkind, h⟩ := Option.bind_eq_some_iff.1 h
      obtain ⟨kindValue, hsome, h⟩ := Option.bind_eq_some_iff.1 h
      obtain ⟨kind, hn, h⟩ := Option.bind_eq_some_iff.1 h
      obtain ⟨data?, hdata, h⟩ := Option.bind_eq_some_iff.1 h
      obtain ⟨dataValue, hsome', h⟩ := Option.bind_eq_some_iff.1 h
      obtain ⟨data, ht, ⟨⟩⟩ := Option.bind_eq_some_iff.1 h
      subst hsome hsome'
      obtain ⟨rfl, hrange⟩ := kind?_eq_some_iff.1 hn
      obtain rfl := Json.text?_eq_some_iff.1 ht
      exact .object (Json.keysReadable_iff.1 hkeys) (Json.single?_eq_some_some_iff.1 hkind)
        (Json.single?_eq_some_some_iff.1 hdata) hrange
    · cases h
  · obtain ⟨kind, hn, h⟩ := Option.bind_eq_some_iff.1 h
    obtain ⟨data, ht, ⟨⟩⟩ := Option.bind_eq_some_iff.1 h
    obtain ⟨rfl, hrange⟩ := kind?_eq_some_iff.1 hn
    obtain rfl := Json.text?_eq_some_iff.1 ht
    exact .array (r := ⟨kind, data⟩) hrange
  · cases h

theorem ofJson?_of_describes (h : Describes v r) : ofJson? v = some r := by
  cases h with
  | object hkeys hkind hdata hrange =>
    have hn := kind?_eq_some_iff.2 ⟨rfl, hrange⟩
    rw [ofJson?, if_pos (Json.keysReadable_iff.2 hkeys), Json.single?_eq_some_some_iff.2 hkind,
      Json.single?_eq_some_some_iff.2 hdata]
    show Option.bind (kind? _) _ = _
    rw [hn]
    rfl
  | array hrange =>
    have hn := kind?_eq_some_iff.2 ⟨rfl, hrange⟩
    show Option.bind (kind? _) _ = _
    rw [hn]
    rfl

theorem ofJson?_eq_some_iff : ofJson? v = some r ↔ Describes v r :=
  ⟨describes_of_ofJson?, ofJson?_of_describes⟩

/-- A value describes a record, or there is a fault in it. -/
theorem faulty_iff : Faulty v ↔ ∀ r, ¬ Describes v r := by
  constructor
  · intro hfaulty r hr
    cases hr with
    | object hkeys hkind hdata hrange =>
      cases hfaulty with
      | key h => exact h hkeys
      | missing h => exact h.elim hkind.not_lacks hdata.not_lacks
      | kind h => exact hkind.not_spoiled ⟨_, rfl, hrange⟩ h
      | data h => exact hdata.not_spoiled ⟨_, rfl⟩ h
      | other hobject _ => exact hobject _ rfl
    | array hrange =>
      cases hfaulty with
      | array h => exact h _ _ rfl ⟨_, rfl, hrange⟩ ⟨_, rfl⟩
      | other _ harray => exact harray _ rfl
  · intro hno
    refine Classical.byContradiction fun h => ?_
    have hobject {ms : List (Option (List Char) × Json)} (hv : v = .object ms) : False := by
      subst hv
      have hkeys := Classical.not_not.1 fun hkeys => h (.key hkeys)
      rcases Json.lacks_or_has_of_not_spoiled fun hkind => h (.kind hkind) with
        hlacks | ⟨_, hkind, n, rfl, hrange⟩
      · exact h (.missing (.inl hlacks))
      · rcases Json.lacks_or_has_of_not_spoiled fun hdata => h (.data hdata) with
          hlacks | ⟨_, hdata, t, rfl⟩
        · exact h (.missing (.inr hlacks))
        · exact hno ⟨n, t⟩ (.object hkeys hkind hdata hrange)
    have harray {vs : List Json} (hv : v = .array vs) : False := by
      subst hv
      refine h (.array fun kind data hvs => ?_)
      rintro ⟨n, rfl, hrange⟩ ⟨t, rfl⟩
      subst hvs
      exact hno ⟨n, t⟩ (.array (r := ⟨n, t⟩) hrange)
    exact h (.other (fun _ => hobject) fun _ => harray)

/-- An object for a record. -/
def written (r : NameRecord) : Json :=
  .object [(some "type".toList, .number (some r.kind)), (some "data".toList, .string (some r.data))]

theorem describes_written (hrange : 0 ≤ r.kind ∧ r.kind ≤ 0xffff) : Describes r.written r := by
  have hne : "type".toList ≠ "data".toList := by decide
  obtain ⟨hkind, hdata⟩ := Json.has_pair hne (.number (some r.kind)) (.string (some r.data))
  exact .object (Json.keyed_pair _ _ _ _) hkind hdata hrange

theorem exists_writes_written (r : NameRecord) : ∃ w, Json.Writes w r.written := by
  refine Json.exists_object (Json.keyed_pair _ _ _ _) fun m hm => ?_
  simp only [List.mem_cons, List.not_mem_nil, or_false] at hm
  rcases hm with rfl | rfl
  · exact ⟨_, .scalar (.number (Json.number_toString r.kind))⟩
  · obtain ⟨w, hw⟩ := Json.exists_quoted r.data
    exact ⟨w, .scalar (.string hw)⟩

end NameRecord

/-! ### Answers -/

namespace NameAnswer

variable {v : Json} {a : NameAnswer}

/-- A signed number of 32 bits. -/
def IsStatus (v : Json) : Prop :=
  ∃ n : Int, v = .number (some n) ∧ -0x80000000 ≤ n ∧ n ≤ 0x7fffffff

/-- An array of values that describe records. -/
def IsRecords (v : Json) : Prop :=
  ∃ vs, v = .array vs ∧ ∀ v' ∈ vs, ¬ NameRecord.Faulty v'

/-- The value describes the answer. It is an object with the status and the records, if there are any,
and with any other members, or an array of the two. -/
inductive Describes : Json → NameAnswer → Prop
  | object {ms : List (Option (List Char) × Json)} {vs : List Json} {a : NameAnswer}
    (hkeys : Json.Keyed ms) (hstatus : Json.Has "Status".toList (.number (some a.status)) ms)
    (hrange : -0x80000000 ≤ a.status ∧ a.status ≤ 0x7fffffff)
    (hanswer : Json.Has "Answer".toList (.array vs) ms ∨ Json.Lacks "Answer".toList ms ∧ vs = [])
    (hrecords : List.Forall₂ NameRecord.Describes vs a.records) : Describes (.object ms) a
  | array {vs tail : List Json} {a : NameAnswer}
    (hrange : -0x80000000 ≤ a.status ∧ a.status ≤ 0x7fffffff)
    (hanswer : tail = [.array vs] ∨ tail = [] ∧ vs = [])
    (hrecords : List.Forall₂ NameRecord.Describes vs a.records) :
    Describes (.array (.number (some a.status) :: tail)) a

/-- The value describes no answer, and why. -/
inductive Faulty : Json → Prop
  /-- A key is no text. -/
  | key {ms : List (Option (List Char) × Json)} (hkeys : ¬ Json.Keyed ms) : Faulty (.object ms)
  /-- There is no status. -/
  | missing {ms : List (Option (List Char) × Json)} (h : Json.Lacks "Status".toList ms) :
    Faulty (.object ms)
  /-- The status comes twice or is no number of 32 bits. -/
  | status {ms : List (Option (List Char) × Json)} (h : Json.Spoiled "Status".toList IsStatus ms) :
    Faulty (.object ms)
  /-- The records come twice or are no array, or there is a fault in one of them. -/
  | answer {ms : List (Option (List Char) × Json)} (h : Json.Spoiled "Answer".toList IsRecords ms) :
    Faulty (.object ms)
  /-- The array is neither one of a status nor one of a status and records. -/
  | array {vs : List Json}
    (h : ∀ status tail, vs = status :: tail → IsStatus status →
      tail ≠ [] ∧ ∀ records, tail = [records] → ¬ IsRecords records) : Faulty (.array vs)
  /-- The value is neither an object nor an array. -/
  | other {v : Json} (hobject : ∀ ms, v ≠ .object ms) (harray : ∀ vs, v ≠ .array vs) : Faulty v

theorem forall_not_faulty_iff {vs : List Json} : (∀ v ∈ vs, ¬ NameRecord.Faulty v) ↔
    ∃ rs, List.Forall₂ NameRecord.Describes vs rs := by
  induction vs with
  | nil => exact ⟨fun _ => ⟨[], .nil⟩, fun _ => nofun⟩
  | cons v vs ih =>
    rw [List.forall_mem_cons, ih]
    constructor
    · rintro ⟨hv, rs, hrs⟩
      obtain ⟨r, hr⟩ := Classical.not_forall_not.1 (mt NameRecord.faulty_iff.2 hv)
      exact ⟨r :: rs, .cons hr hrs⟩
    · rintro ⟨_, hrs⟩
      cases hrs with
      | cons hr hrs => exact ⟨fun hv => NameRecord.faulty_iff.1 hv _ hr, _, hrs⟩

theorem status?_eq_some_iff {n : Int} :
    status? v = some n ↔ v = .number (some n) ∧ -0x80000000 ≤ n ∧ n ≤ 0x7fffffff :=
  Json.integer?_eq_some_iff

theorem records?_eq_some_iff {v? : Option Json} {rs : List NameRecord} :
    records? v? = some rs ↔ ∃ vs, (v? = some (.array vs) ∨ v? = none ∧ vs = []) ∧
      List.Forall₂ NameRecord.Describes vs rs := by
  constructor
  · intro h
    unfold records? at h
    split at h
    · cases h
      exact ⟨[], .inr ⟨rfl, rfl⟩, .nil⟩
    · next vs =>
      refine ⟨vs, .inl rfl, ?_⟩
      simpa only [NameRecord.ofJson?_eq_some_iff] using Text.mapM_eq_some_iff.1 h
    · cases h
  · rintro ⟨vs, rfl | ⟨rfl, rfl⟩, hrs⟩
    · refine Text.mapM_eq_some_iff.2 ?_
      simpa only [NameRecord.ofJson?_eq_some_iff] using hrs
    · cases hrs
      rfl

theorem describes_of_ofJson? (h : ofJson? v = some a) : Describes v a := by
  unfold ofJson? at h
  split at h
  · next ms =>
    split at h
    · next hkeys =>
      obtain ⟨status?, hstatus, h⟩ := Option.bind_eq_some_iff.1 h
      obtain ⟨statusValue, hsome, h⟩ := Option.bind_eq_some_iff.1 h
      obtain ⟨status, hn, h⟩ := Option.bind_eq_some_iff.1 h
      obtain ⟨answer?, hanswer, h⟩ := Option.bind_eq_some_iff.1 h
      obtain ⟨records, hrecords, ⟨⟩⟩ := Option.bind_eq_some_iff.1 h
      subst hsome
      obtain ⟨rfl, hrange⟩ := status?_eq_some_iff.1 hn
      obtain ⟨vs, hvs, hrecords⟩ := records?_eq_some_iff.1 hrecords
      refine .object (Json.keysReadable_iff.1 hkeys) (Json.single?_eq_some_some_iff.1 hstatus) hrange ?_
        hrecords
      rcases hvs with rfl | ⟨rfl, hvs⟩
      · exact .inl (Json.single?_eq_some_some_iff.1 hanswer)
      · exact .inr ⟨Json.single?_eq_some_none_iff.1 hanswer, hvs⟩
    · cases h
  · obtain ⟨status, hn, ⟨⟩⟩ := Option.bind_eq_some_iff.1 h
    obtain ⟨rfl, hrange⟩ := status?_eq_some_iff.1 hn
    exact .array (a := ⟨status, []⟩) hrange (.inr ⟨rfl, rfl⟩) .nil
  · obtain ⟨status, hn, h⟩ := Option.bind_eq_some_iff.1 h
    obtain ⟨records, hrecords, ⟨⟩⟩ := Option.bind_eq_some_iff.1 h
    obtain ⟨rfl, hrange⟩ := status?_eq_some_iff.1 hn
    obtain ⟨vs, hvs, hdescribes⟩ := records?_eq_some_iff.1 hrecords
    rcases hvs with ⟨⟨⟩⟩ | ⟨⟨⟩, -⟩
    exact .array (a := ⟨status, records⟩) hrange (.inl rfl) hdescribes
  · cases h

theorem ofJson?_of_describes (h : Describes v a) : ofJson? v = some a := by
  cases h with
  | @object ms vs a hkeys hstatus hrange hanswer hrecords =>
    have hn := status?_eq_some_iff.2 ⟨rfl, hrange⟩
    obtain ⟨v?, hv?, hrecords⟩ : ∃ v?, Json.single? "Answer".toList ms = some v? ∧
        records? v? = some a.records := by
      rcases hanswer with hhas | ⟨hlacks, rfl⟩
      · exact ⟨_, Json.single?_eq_some_some_iff.2 hhas, records?_eq_some_iff.2 ⟨vs, .inl rfl, hrecords⟩⟩
      · exact ⟨_, Json.single?_eq_some_none_iff.2 hlacks,
          records?_eq_some_iff.2 ⟨[], .inr ⟨rfl, rfl⟩, hrecords⟩⟩
    rw [ofJson?, if_pos (Json.keysReadable_iff.2 hkeys), Json.single?_eq_some_some_iff.2 hstatus, hv?]
    show Option.bind (status? _) _ = _
    rw [hn]
    show Option.bind (records? _) _ = _
    rw [hrecords]
    rfl
  | @array vs tail a hrange hanswer hrecords =>
    have hn := status?_eq_some_iff.2 ⟨rfl, hrange⟩
    obtain ⟨status, records⟩ := a
    rcases hanswer with rfl | ⟨rfl, rfl⟩
    · have hrecords := records?_eq_some_iff.2 ⟨vs, .inl rfl, hrecords⟩
      show Option.bind (status? _) _ = _
      rw [hn]
      show Option.bind (records? _) _ = _
      rw [hrecords]
      rfl
    · cases hrecords
      show Option.bind (status? _) _ = _
      rw [hn]
      rfl

theorem ofJson?_eq_some_iff : ofJson? v = some a ↔ Describes v a :=
  ⟨describes_of_ofJson?, ofJson?_of_describes⟩

/-- A value describes an answer, or there is a fault in it. -/
theorem faulty_iff : Faulty v ↔ ∀ a, ¬ Describes v a := by
  constructor
  · intro hfaulty a ha
    cases ha with
    | object hkeys hstatus hrange hanswer hrecords =>
      cases hfaulty with
      | key h => exact h hkeys
      | missing h => exact hstatus.not_lacks h
      | status h => exact hstatus.not_spoiled ⟨_, rfl, hrange⟩ h
      | answer h =>
        rcases hanswer with hhas | ⟨hlacks, -⟩
        · exact hhas.not_spoiled ⟨_, rfl, forall_not_faulty_iff.2 ⟨_, hrecords⟩⟩ h
        · exact hlacks.not_spoiled h
      | other hobject _ => exact hobject _ rfl
    | array hrange hanswer hrecords =>
      cases hfaulty with
      | array h =>
        obtain ⟨hne, hno⟩ := h _ _ rfl ⟨_, rfl, hrange⟩
        rcases hanswer with rfl | ⟨rfl, -⟩
        · exact hno _ rfl ⟨_, rfl, forall_not_faulty_iff.2 ⟨_, hrecords⟩⟩
        · exact hne rfl
      | other _ harray => exact harray _ rfl
  · intro hno
    refine Classical.byContradiction fun h => ?_
    have hobject {ms : List (Option (List Char) × Json)} (hv : v = .object ms) : False := by
      subst hv
      have hkeys := Classical.not_not.1 fun hkeys => h (.key hkeys)
      rcases Json.lacks_or_has_of_not_spoiled fun hstatus => h (.status hstatus) with
        hlacks | ⟨_, hstatus, n, rfl, hrange⟩
      · exact h (.missing hlacks)
      · rcases Json.lacks_or_has_of_not_spoiled fun hanswer => h (.answer hanswer) with
          hlacks | ⟨_, hanswer, vs, rfl, hvs⟩
        · exact hno ⟨n, []⟩ (.object hkeys hstatus hrange (.inr ⟨hlacks, rfl⟩) .nil)
        · obtain ⟨rs, hrs⟩ := forall_not_faulty_iff.1 hvs
          exact hno ⟨n, rs⟩ (.object hkeys hstatus hrange (.inl hanswer) hrs)
    have harray {vs : List Json} (hv : v = .array vs) : False := by
      subst hv
      refine h (.array fun status tail hvs => ?_)
      rintro ⟨n, rfl, hrange⟩
      subst hvs
      refine ⟨?_, ?_⟩
      · rintro rfl
        exact hno ⟨n, []⟩ (.array (a := ⟨n, []⟩) hrange (.inr ⟨rfl, rfl⟩) .nil)
      · rintro _ rfl ⟨vs, rfl, hvs⟩
        obtain ⟨rs, hrs⟩ := forall_not_faulty_iff.1 hvs
        exact hno ⟨n, rs⟩ (.array (a := ⟨n, rs⟩) hrange (.inl rfl) hrs)
    exact h (.other (fun _ => hobject) fun _ => harray)

/-- The text represents the answer. -/
def Represents (text : List Char) (a : NameAnswer) : Prop :=
  ∃ v, Json.Document text v ∧ Describes v a

theorem parse?_eq_some_iff {text : List Char} : parse? text = some a ↔ Represents text a := by
  rw [parse?, Option.bind_eq_some_iff]
  simp only [Json.parse?_eq_some_iff, ofJson?_eq_some_iff]
  rfl

/-- The status and the kinds of the records are in their ranges. -/
structure InRange (a : NameAnswer) : Prop where
  status : -0x80000000 ≤ a.status ∧ a.status ≤ 0x7fffffff
  kind : ∀ r ∈ a.records, 0 ≤ r.kind ∧ r.kind ≤ 0xffff

theorem Represents.inRange {text : List Char} (h : Represents text a) : a.InRange := by
  have hkinds {vs : List Json} {rs : List NameRecord} (hrs : List.Forall₂ NameRecord.Describes vs rs) :
      ∀ r ∈ rs, 0 ≤ r.kind ∧ r.kind ≤ 0xffff := by
    induction hrs with
    | nil => exact nofun
    | cons hr _ ih =>
      refine List.forall_mem_cons.2 ⟨?_, ih⟩
      cases hr <;> assumption
  obtain ⟨v, -, hv⟩ := h
  cases hv with
  | object _ _ hrange _ hrecords => exact ⟨hrange, hkinds hrecords⟩
  | array hrange _ hrecords => exact ⟨hrange, hkinds hrecords⟩

/-- An object for an answer. -/
def written (a : NameAnswer) : Json :=
  .object [(some "Status".toList, .number (some a.status)),
    (some "Answer".toList, .array (a.records.map NameRecord.written))]

theorem describes_written (ha : a.InRange) : Describes a.written a := by
  have hne : "Status".toList ≠ "Answer".toList := by decide
  obtain ⟨hstatus, hanswer⟩ := Json.has_pair hne (.number (some a.status))
    (.array (a.records.map NameRecord.written))
  refine .object (Json.keyed_pair _ _ _ _) hstatus ha.status (.inl hanswer) ?_
  rw [List.forall₂_map_left_iff, List.forall₂_same]
  exact fun r hr => NameRecord.describes_written (ha.kind r hr)

theorem exists_represents (ha : a.InRange) : ∃ text, Represents text a := by
  obtain ⟨text, htext⟩ : ∃ w, Json.Writes w a.written := by
    refine Json.exists_object (Json.keyed_pair _ _ _ _) fun m hm => ?_
    simp only [List.mem_cons, List.not_mem_nil, or_false] at hm
    rcases hm with rfl | rfl
    · exact ⟨_, .scalar (.number (Json.number_toString a.status))⟩
    · refine Json.exists_array fun v hv => ?_
      obtain ⟨r, -, rfl⟩ := List.mem_map.1 hv
      exact r.exists_writes_written
  exact ⟨text, _, Json.padded_self htext, describes_written ha⟩

/-- **Answers to lookups.** Every answer in range is represented by a text. In any text that represents
it, the address is the data of its first record of kind 1 if the status is zero, whatever records come
before and behind, and there is none if the status is another or no record is of that kind. There is
none in a text that is no document, and none in a document with a fault, as when a known member of it or
of one of its records comes twice or is not what it has to be. Each text is one of these. -/
theorem firstAddress?_reads :
    (∀ a : NameAnswer, a.InRange → ∃ text, Represents text a) ∧
    (∀ text a, Represents text a → a.InRange ∧
      (a.status ≠ 0 → firstAddress? text = none) ∧
      ((∀ r ∈ a.records, r.kind ≠ 1) → firstAddress? text = none) ∧
      ∀ before r behind, a.records = before ++ r :: behind → (∀ r' ∈ before, r'.kind ≠ 1) →
        r.kind = 1 → a.status = 0 → firstAddress? text = some r.data) ∧
    (∀ text, (∀ v, ¬ Json.Document text v) → firstAddress? text = none) ∧
    (∀ text v, Json.Document text v → Faulty v → firstAddress? text = none) ∧
    ∀ text, (∃ a, Represents text a) ∨ (∀ v, ¬ Json.Document text v) ∨
      ∃ v, Json.Document text v ∧ Faulty v := by
  have hnone {text : List Char} (h : ∀ a, ¬ Represents text a) : firstAddress? text = none := by
    rw [firstAddress?, Option.eq_none_iff_forall_ne_some.2 fun a ha => h a (parse?_eq_some_iff.1 ha)]
    rfl
  refine ⟨fun a => exists_represents, fun text a ha => ⟨ha.inRange, ?_⟩, fun text hno => ?_,
    fun text v hv hfaulty => ?_, fun text => ?_⟩
  · have hread : firstAddress? text = address? a := by
      rw [firstAddress?, parse?_eq_some_iff.2 ha]
      rfl
    rw [hread, address?]
    refine ⟨fun hstatus => if_neg hstatus, fun hkinds => ?_,
      fun before r behind hrs hbefore hr hstatus => ?_⟩
    · have hfind : (a.records.find? fun r => r.kind == NameRecord.addressKind) = none :=
        List.find?_eq_none.2 fun r hr hkind => hkinds r hr (beq_iff_eq.1 hkind)
      rw [hfind, Option.map_none, ite_self]
    · have hfind : (a.records.find? fun r => r.kind == NameRecord.addressKind) = some r :=
        List.find?_eq_some_iff_append.2 ⟨beq_iff_eq.2 hr, before, behind, hrs, fun r' hr' =>
          Bool.not_eq_true' _ ▸ beq_eq_false_iff_ne.2 (hbefore r' hr')⟩
      rw [if_pos hstatus, hfind, Option.map_some]
  · exact hnone fun a ⟨v, hv, _⟩ => hno v hv
  · refine hnone fun a ⟨v', hv', ha⟩ => ?_
    obtain rfl := Option.some.inj
      ((Json.parse?_eq_some_iff.2 hv).symm.trans (Json.parse?_eq_some_iff.2 hv'))
    exact faulty_iff.1 hfaulty a ha
  · by_cases hv : ∃ v, Json.Document text v
    · obtain ⟨v, hv⟩ := hv
      by_cases ha : ∃ a, Describes v a
      · exact .inl (ha.imp fun a ha => ⟨v, hv, ha⟩)
      · exact .inr (.inr ⟨v, hv, faulty_iff.2 (not_exists.1 ha)⟩)
    · exact .inr (.inl (not_exists.1 hv))

end NameAnswer

end Switchyard
