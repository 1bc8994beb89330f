import Switchyard.Http.Request

/-!
# Heads that arrive in parts

A scan that has come to a decision stays with it when more bytes arrive (`Http.Stable`), and gives them
back behind the others. So a head is the same however it is cut, and as long as it is not complete no
request is read (`Request.read_append`). A head ends with an empty line (`Request.endsEmpty_of_read`).
-/

namespace Switchyard

/-- The outcome with more bytes behind it. -/
def Scan.put {α : Type} (more : Bytes) : Scan α → Scan α
  | done a rest => done a (rest ++ more)
  | short => short
  | bad e => bad e

namespace Http

variable {α β : Type}

/-! ### Decisions are final -/

/-- What was decided does not depend on what stands behind it. -/
def Stable (scan : Bytes → Scan α) : Prop :=
  ∀ bs more, scan bs ≠ .short → scan (bs ++ more) = (scan bs).put more

theorem Stable.bind {scan : Bytes → Scan α} {next : α → Bytes → Scan β} (h : Stable scan)
    (hnext : ∀ a, Stable (next a)) : Stable fun bs => (scan bs).bind next := by
  intro bs more hbs
  have hscan := h bs more
  dsimp only at hbs ⊢
  cases hs : scan bs with
  | done a rest =>
    rw [hs] at hscan hbs
    rw [hscan nofun]
    exact hnext a rest more hbs
  | short =>
    rw [hs] at hbs
    exact absurd rfl hbs
  | bad e =>
    rw [hs] at hscan
    rw [hscan nofun]
    rfl

theorem Stable.done (a : α) : Stable (Scan.done a) := fun _ _ _ => rfl

theorem Stable.bad (e : RequestFault) : Stable fun _ => (Scan.bad e : Scan α) := fun _ _ _ => rfl

theorem stable_newline : Stable newline := by
  intro bs more h
  match bs with
  | [] => exact absurd rfl h
  | [b] =>
    -- A carriage return alone is no decision.
    by_cases hfeed : b = lineFeed
    · simp only [List.singleton_append, newline, if_pos hfeed]
      rfl
    · by_cases hreturn : b = carriageReturn
      · simp only [newline, if_neg hfeed, if_pos hreturn] at h
        exact absurd rfl h
      · simp only [List.singleton_append, newline, if_neg hfeed, if_neg hreturn]
        rfl
  | b :: c :: bs =>
    simp only [List.cons_append, newline]
    repeat' split
    all_goals rfl

theorem while_append {p : UInt8 → Bool} {bs : Bytes} (h : bs.dropWhile p ≠ []) (more : Bytes) :
    (bs ++ more).dropWhile p = bs.dropWhile p ++ more ∧
      (bs ++ more).takeWhile p = bs.takeWhile p := by
  induction bs with
  | nil => exact absurd rfl h
  | cons b bs ih =>
    cases hb : p b with
    | true =>
      rw [List.dropWhile_cons_of_pos hb] at h
      obtain ⟨hdrop, htake⟩ := ih h
      simp [hb, hdrop, htake]
    | false => simp [hb]

theorem stable_word (p : UInt8 → Bool) (stop : UInt8) : Stable (word p stop) := by
  intro bs more h
  have hne : bs.dropWhile p ≠ [] := by
    intro hnil
    rw [word, hnil] at h
    exact absurd rfl h
  obtain ⟨hdrop, htake⟩ := while_append hne more
  obtain ⟨b, rest, hb⟩ := List.exists_cons_of_ne_nil hne
  simp only [word, hdrop, htake, hb, List.cons_append]
  split <;> rfl

theorem stable_skipEmptyLines : Stable skipEmptyLines := by
  intro bs more h
  fun_induction skipEmptyLines bs with
  | case1 | case2 => exact absurd rfl h
  | case3 b hb =>
    rw [not_or] at hb
    cases more with
    | nil => simp [skipEmptyLines, hb, Scan.put]
    | cons c more => simp [skipEmptyLines, hb, Scan.put]
  | case4 c bs ih => exact ih h
  | case5 bs _ ih => exact ih h
  | case6 => simp [skipEmptyLines, *, Scan.put]
  | case7 b c bs hfeed hreturn => simp [skipEmptyLines, hfeed, hreturn, Scan.put]

theorem stable_target : Stable target :=
  (stable_word isTargetByte space).bind fun t rest more h => by
    split <;> rfl

/-- What cannot begin the name of a version cannot become one. -/
theorem take_ne_of_other {bs name : Bytes} {b : UInt8} (hlt : bs.length < 8)
    (h : ¬ bs <+: Bytes.ofString "HTTP/1.") (hname : name = Bytes.ofString "HTTP/1." ++ [b])
    (more : Bytes) : (bs ++ more).take 8 ≠ name := by
  rintro htake
  rw [hname] at htake
  have hbs : bs <+: Bytes.ofString "HTTP/1." ++ [b] := by
    rw [← htake]
    exact List.prefix_take_iff.2 ⟨List.prefix_append bs more, Nat.le_of_lt hlt⟩
  exact h (List.prefix_of_prefix_length_le hbs (List.prefix_append _ _) (Nat.le_of_lt_succ hlt))

theorem stable_version : Stable version := by
  intro bs more h
  unfold version at h ⊢
  by_cases hlt : bs.length < 8
  · rw [if_pos hlt] at h
    rw [if_pos hlt]
    split at h
    · exact absurd rfl h
    · next hprefix =>
      rw [List.isPrefixOf_iff_prefix] at hprefix
      rw [if_neg (mt List.isPrefixOf_iff_prefix.1 hprefix)]
      have hfirst : ¬ bs ++ more <+: Bytes.ofString "HTTP/1." := fun hmore =>
        hprefix ((List.prefix_append bs more).trans hmore)
      split
      · exact if_neg (mt List.isPrefixOf_iff_prefix.1 hfirst)
      · rw [if_neg (take_ne_of_other (b := 0x31) hlt hprefix (by decide) more),
          if_neg (take_ne_of_other (b := 0x30) hlt hprefix (by decide) more)]
        rfl
  · have htake : (bs ++ more).take 8 = bs.take 8 := List.take_append_of_le_length (by omega)
    have hdrop : (bs ++ more).drop 8 = bs.drop 8 ++ more := List.drop_append_of_le_length (by omega)
    have hlt' : ¬ (bs ++ more).length < 8 := by
      rw [List.length_append]
      omega
    rw [if_neg hlt, if_neg hlt', htake, hdrop]
    repeat' split
    all_goals rfl

theorem stable_fieldValue : Stable fieldValue := by
  intro bs more h
  have hvalue : (bs.dropWhile isBlankByte).dropWhile isValueByte ≠ [] := by
    intro hnil
    rw [fieldValue, hnil] at h
    exact absurd rfl h
  have hblank : bs.dropWhile isBlankByte ≠ [] := by
    intro hnil
    rw [hnil] at hvalue
    exact hvalue rfl
  unfold fieldValue at h ⊢
  dsimp only at h ⊢
  rw [(while_append hblank more).1, (while_append hvalue more).1, (while_append hvalue more).2]
  exact stable_newline.bind (fun _ => .done _) _ more h

theorem stable_field : Stable field :=
  (stable_word isTokenByte colon).bind fun _ => stable_fieldValue.bind fun _ => .done _

/-- Fields are read until an empty line, and what is done with a field is up to what follows. -/
theorem stable_untilEmpty {next : HeaderField → Bytes → Scan (List HeaderField)}
    (hnext : ∀ f, Stable (next f)) (fs : List HeaderField) :
    Stable fun
      | [] => .short
      | b :: bs =>
        if b = lineFeed ∨ b = carriageReturn then
          (newline (b :: bs)).bind fun _ rest => .done fs rest
        else (field (b :: bs)).bind next := by
  intro bs more h
  cases bs with
  | nil => exact absurd rfl h
  | cons b bs =>
    dsimp only [List.cons_append] at h ⊢
    split at h
    · next hb =>
      rw [if_pos hb, if_pos hb]
      exact stable_newline.bind (fun _ => .done fs) (b :: bs) more h
    · next hb =>
      rw [if_neg hb, if_neg hb]
      exact stable_field.bind hnext (b :: bs) more h

theorem stable_fields (room : Nat) (acc : List HeaderField) : Stable (fields room acc) := by
  induction room generalizing acc with
  | zero =>
    intro bs more h
    cases bs with
    | nil => exact absurd rfl h
    | cons b bs => exact stable_untilEmpty (fun _ => .bad _) acc.reverse (b :: bs) more h
  | succ room ih =>
    intro bs more h
    cases bs with
    | nil => exact absurd rfl h
    | cons b bs => exact stable_untilEmpty (fun f => ih (f :: acc)) acc.reverse (b :: bs) more h

theorem stable_requestLine : Stable requestLine :=
  (stable_word isTokenByte space).bind fun _ => stable_target.bind fun _ =>
    stable_version.bind fun _ => stable_newline.bind fun _ => .done _

theorem stable_checked (h : RequestHead) : Stable (checked h) := by
  intro bs more _
  unfold checked
  repeat' split
  all_goals rfl

theorem stable_head : Stable head :=
  stable_skipEmptyLines.bind fun _ => stable_requestLine.bind fun _ =>
    (stable_fields _ _).bind fun _ => stable_checked _

/-! ### The end of a head -/

/-- A scan that takes bytes off the front. -/
def Takes (scan : Bytes → Scan α) : Prop :=
  ∀ bs a rest, scan bs = .done a rest → ∃ front, bs = front ++ rest

/-- A scan that takes bytes up to the end of a line. -/
def TakesLine (scan : Bytes → Scan α) : Prop :=
  ∀ bs a rest, scan bs = .done a rest → ∃ front, bs = front ++ lineFeed :: rest

theorem eq_done_of_bind {scan : Scan α} {next : α → Bytes → Scan β} {b : β} {rest : Bytes}
    (h : scan.bind next = .done b rest) :
    ∃ a behind, scan = .done a behind ∧ next a behind = .done b rest := by
  cases scan with
  | done a behind => exact ⟨a, behind, rfl, h⟩
  | short | bad => cases h

theorem Takes.line {scan : Bytes → Scan α} {next : α → Bytes → Scan β} (h : Takes scan)
    (hnext : ∀ a, TakesLine (next a)) : TakesLine fun bs => (scan bs).bind next := by
  intro bs b rest hbs
  obtain ⟨a, behind, hscan, hdone⟩ := eq_done_of_bind hbs
  obtain ⟨front, rfl⟩ := h bs a behind hscan
  obtain ⟨line, rfl⟩ := hnext a behind b rest hdone
  exact ⟨front ++ line, (List.append_assoc _ _ _).symm⟩

theorem TakesLine.map {scan : Bytes → Scan α} (h : TakesLine scan) (f : α → β) :
    TakesLine fun bs => (scan bs).bind fun a => .done (f a) := by
  intro bs b rest hbs
  obtain ⟨a, behind, hscan, hdone⟩ := eq_done_of_bind hbs
  cases hdone
  exact h bs a rest hscan

theorem newline_eq_done {bs rest : Bytes} (h : newline bs = .done () rest) :
    bs = lineFeed :: rest ∨ bs = carriageReturn :: lineFeed :: rest := by
  unfold newline at h
  repeat' split at h
  all_goals cases h
  · next hfeed => exact .inl (hfeed ▸ rfl)
  · next hreturn _ _ hfeed => exact .inr (hreturn ▸ hfeed ▸ rfl)

theorem takesLine_newline : TakesLine newline := by
  intro bs _ rest h
  rcases newline_eq_done h with rfl | rfl
  · exact ⟨[], rfl⟩
  · exact ⟨[carriageReturn], rfl⟩

theorem takes_word (p : UInt8 → Bool) (stop : UInt8) : Takes (word p stop) := by
  intro bs w rest h
  unfold word at h
  dsimp only at h
  split at h
  · cases h
  · next b behind hb =>
    split at h
    · cases h
      refine ⟨bs.takeWhile p ++ [b], ?_⟩
      rw [List.append_assoc, List.singleton_append, ← hb, List.takeWhile_append_dropWhile]
    · cases h

theorem takes_target : Takes target := by
  intro bs t rest h
  obtain ⟨t', behind, hword, hdone⟩ := eq_done_of_bind h
  split at hdone
  · cases hdone
    exact takes_word _ _ bs t rest hword
  · cases hdone

theorem takes_version : Takes version := by
  intro bs v rest h
  unfold version at h
  repeat' split at h
  all_goals cases h
  all_goals exact ⟨bs.take 8, (List.take_append_drop 8 bs).symm⟩

theorem takes_skipEmptyLines : Takes skipEmptyLines := by
  intro bs a rest h
  fun_induction skipEmptyLines bs with
  | case1 | case2 | case6 => cases h
  | case3 | case7 =>
    cases h
    exact ⟨[], rfl⟩
  | case4 c bs ih =>
    obtain ⟨front, hfront⟩ := ih h
    exact ⟨_ :: front, congrArg (_ :: ·) hfront⟩
  | case5 bs _ ih =>
    obtain ⟨front, hfront⟩ := ih h
    exact ⟨_ :: _ :: front, congrArg (_ :: _ :: ·) hfront⟩

theorem takesLine_requestLine : TakesLine requestLine :=
  (takes_word _ _).line fun _ => takes_target.line fun _ => takes_version.line fun _ =>
    takesLine_newline.map _

theorem takesLine_fieldValue : TakesLine fieldValue := by
  intro bs value rest h
  obtain ⟨front, hfront⟩ := takesLine_newline.map _ _ value rest h
  refine ⟨bs.takeWhile isBlankByte ++ ((bs.dropWhile isBlankByte).takeWhile isValueByte ++ front), ?_⟩
  rw [List.append_assoc, List.append_assoc, ← hfront, List.takeWhile_append_dropWhile,
    List.takeWhile_append_dropWhile]

theorem takesLine_field : TakesLine field :=
  (takes_word _ _).line fun _ => takesLine_fieldValue.map _

/-- A byte string ends with an empty line, and then come these bytes. -/
def EndsEmpty (bs rest : Bytes) : Prop :=
  ∃ front, bs = front ++ lineFeed :: lineFeed :: rest ∨
    bs = front ++ lineFeed :: carriageReturn :: lineFeed :: rest

theorem EndsEmpty.prepend {bs rest : Bytes} (h : EndsEmpty bs rest) (before : Bytes) :
    EndsEmpty (before ++ bs) rest := by
  obtain ⟨front, rfl | rfl⟩ := h
  · exact ⟨before ++ front, .inl (List.append_assoc _ _ _).symm⟩
  · exact ⟨before ++ front, .inr (List.append_assoc _ _ _).symm⟩

theorem endsEmpty_of_newline {α : Type} {a b : α} {bs rest : Bytes}
    (h : ((newline bs).bind fun _ => .done a) = .done b rest) : EndsEmpty (lineFeed :: bs) rest := by
  obtain ⟨_, behind, hnewline, hdone⟩ := eq_done_of_bind h
  cases hdone
  rcases newline_eq_done hnewline with rfl | rfl
  · exact ⟨[], .inl rfl⟩
  · exact ⟨[], .inr rfl⟩

/-- Behind the end of a line, fields end with an empty line. -/
theorem endsEmpty_of_fields {room : Nat} {acc fs : List HeaderField} {bs rest : Bytes}
    (h : fields room acc bs = .done fs rest) : EndsEmpty (lineFeed :: bs) rest := by
  induction room generalizing acc bs with
  | zero =>
    unfold fields at h
    split at h
    · cases h
    · split at h
      · exact endsEmpty_of_newline h
      · obtain ⟨_, _, -, hbad⟩ := eq_done_of_bind h
        cases hbad
  | succ room ih =>
    unfold fields at h
    split at h
    · cases h
    · split at h
      · exact endsEmpty_of_newline h
      · obtain ⟨f, behind, hfield, hrest⟩ := eq_done_of_bind h
        obtain ⟨front, hfront⟩ := takesLine_field _ f behind hfield
        rw [hfront]
        exact (ih hrest).prepend (lineFeed :: front)

theorem endsEmpty_of_head {bs rest : Bytes} {head : RequestHead}
    (h : Http.head bs = .done head rest) : EndsEmpty bs rest := by
  obtain ⟨_, behind, hskip, h⟩ := eq_done_of_bind h
  obtain ⟨line, fieldLines, hline, h⟩ := eq_done_of_bind h
  obtain ⟨fs, behindFields, hfields, hchecked⟩ := eq_done_of_bind h
  obtain ⟨front, rfl⟩ := takes_skipEmptyLines bs _ behind hskip
  obtain ⟨front', rfl⟩ := takesLine_requestLine behind line fieldLines hline
  have hrest : behindFields = rest := by
    unfold checked at hchecked
    repeat' split at hchecked
    all_goals cases hchecked
    rfl
  subst hrest
  exact ((endsEmpty_of_fields hfields).prepend front').prepend front

end Http

/-! ### Requests -/

namespace RequestRead

/-- What is read with more bytes behind. -/
def put (more : Bytes) : RequestRead → RequestRead
  | request r rest => request r (rest ++ more)
  | short => short
  | fault e rest => fault e (rest ++ more)

end RequestRead

namespace Request

theorem read_append {bs : Bytes} (h : read bs ≠ .short) (more : Bytes) :
    read (bs ++ more) = (read bs).put more := by
  have hhead : Http.head bs ≠ .short := by
    intro hshort
    rw [read, hshort] at h
    exact h rfl
  unfold read
  rw [Http.stable_head bs more hhead]
  cases hs : Http.head bs with
  | short => exact absurd hs hhead
  | bad e => rfl
  | done head rest =>
    dsimp only [Scan.put]
    cases ofHead head <;> rfl

theorem endsEmpty_of_read {bs rest : Bytes} {r : Request} (h : read bs = .request r rest) :
    Http.EndsEmpty bs rest := by
  unfold read at h
  split at h
  · next head behind hhead =>
    split at h
    · cases h
      exact Http.endsEmpty_of_head hhead
    · cases h
  · cases h
  · cases h

/-- A byte string is the head of a request and nothing else. -/
def IsHead (bs : Bytes) (r : Request) : Prop :=
  read bs = .request r []

variable {head bs : Bytes} {r : Request}

theorem IsHead.read_append (h : IsHead head r) (more : Bytes) :
    read (head ++ more) = .request r more := by
  have hread : read head ≠ .short := by rw [h]; nofun
  have hmore := Request.read_append hread more
  rwa [h] at hmore

/-- What is read in a part of a head, or in a head with more behind. -/
theorem IsHead.read_cases (h : IsHead head r) {more behind : Bytes}
    (hbs : bs ++ more = head ++ behind) :
    bs.length < head.length ∧ read bs = .short ∨
      ∃ rest, bs = head ++ rest ∧ behind = rest ++ more ∧ read bs = .request r rest := by
  rcases List.append_eq_append_iff.1 hbs with ⟨missing, rfl, hmore⟩ | ⟨rest, rfl, hbehind⟩
  · by_cases hnil : missing = []
    · subst hnil
      rw [List.append_nil] at h ⊢
      exact .inr ⟨[], (List.append_nil bs).symm, hmore.symm, h⟩
    · refine .inl ⟨?_, Decidable.not_not.1 fun hread => ?_⟩
      · rw [List.length_append]
        exact Nat.lt_add_of_pos_right (List.length_pos_iff.2 hnil)
      · -- A decision would stand, and leave what is missing.
        have hall := Request.read_append hread missing
        rw [IsHead] at h
        rw [h] at hall
        cases hbs : read bs with
        | request r' rest =>
          rw [hbs] at hall
          exact hnil (List.append_eq_nil_iff.1 (RequestRead.request.inj hall).2.symm).2
        | short => exact hread hbs
        | fault e rest =>
          rw [hbs] at hall
          cases hall
  · exact .inr ⟨rest, rfl, hbehind, h.read_append rest⟩

theorem IsHead.ne_nil (h : IsHead head r) : head ≠ [] := by
  rintro rfl
  cases h

end Request

end Switchyard
