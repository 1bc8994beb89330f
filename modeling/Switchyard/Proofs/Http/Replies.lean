import Switchyard.Http.Reply
import Switchyard.Proofs.Text.Plain
import Switchyard.Proofs.Text.Split
import Switchyard.Proofs.Text.Utf8

/-!
# Responses as they are read

A response is written line by line, and a client finds the end of its head at the first empty line, the
fields in the lines, and the body by the length that one of them tells. What it reads is what was
written, whatever follows (`Reply.read?_bytes`).
-/

namespace Switchyard

open Response (lineEnd)

/-! ### Lines -/

/-- A line that is not empty and ends where its end is written. -/
structure IsLine (cs : List Char) : Prop where
  ne_nil : cs ≠ []
  print : ∀ c ∈ cs, Text.IsPrint c

theorem utf8EncodeChar_of_isPrint {c : Char} (h : Text.IsPrint c) :
    String.utf8EncodeChar c = [UInt8.ofNat c.toNat] := by
  have hle : c.toNat ≤ 127 := Nat.le_of_lt h.2
  have hsize : c.utf8Size = 1 := Char.utf8Size_eq_one_iff.2 (UInt32.le_iff_toNat_le.2 hle)
  rw [String.utf8EncodeChar_eq_singleton hsize]
  rfl

theorem isVisibleByte_of_isPrint {c : Char} (h : Text.IsPrint c) {b : UInt8}
    (hb : b ∈ String.utf8EncodeChar c) : 0x20 ≤ b ∧ b < 0x7F := by
  obtain ⟨hlo, hhi⟩ := h
  rw [utf8EncodeChar_of_isPrint ⟨hlo, hhi⟩, List.mem_singleton] at hb
  have hvalue : b.toNat = c.toNat := by
    rw [hb, UInt8.toNat_ofNat']
    omega
  exact ⟨UInt8.le_iff_toNat_le.2 (hvalue ▸ hlo), UInt8.lt_iff_toNat_lt.2 (hvalue ▸ hhi)⟩

namespace IsLine

variable {cs : List Char}

theorem ne_carriageReturn (h : IsLine cs) : ∀ b ∈ Bytes.ofText cs, b ≠ carriageReturn := by
  intro b hb
  obtain ⟨c, hc, hb⟩ := List.mem_flatMap.1 hb
  rintro rfl
  exact absurd (isVisibleByte_of_isPrint (h.print c hc) hb).1 (by decide)

theorem exists_byte (h : IsLine cs) :
    ∃ b bs, Bytes.ofText cs = b :: bs ∧ b ≠ carriageReturn := by
  obtain ⟨c, cs, rfl⟩ := List.exists_cons_of_ne_nil h.ne_nil
  have hb : Bytes.ofText (c :: cs) = UInt8.ofNat c.toNat :: Bytes.ofText cs := by
    rw [Utf8.ofText_cons, utf8EncodeChar_of_isPrint (h.print c List.mem_cons_self)]
    rfl
  exact ⟨_, _, hb, h.ne_carriageReturn _ (hb ▸ List.mem_cons_self)⟩

/-- No control character is in a line. -/
theorem beq_eq_false (h : IsLine cs) (control : Char) (hlt : control.toNat < 0x20) :
    ∀ c ∈ cs, (c == control) = false := by
  intro c hc
  rw [beq_eq_false_iff_ne]
  rintro rfl
  exact absurd (h.print c hc).1 (Nat.not_le_of_lt hlt)

end IsLine

namespace Reply

theorem cutFrom_cons (sep acc : Bytes) (b : UInt8) (bs : Bytes) :
    cutFrom sep acc (b :: bs) =
      if sep.isPrefixOf (b :: bs) then some (acc.reverse, (b :: bs).drop sep.length)
      else cutFrom sep (b :: acc) bs := rfl

/-- No empty line is in the middle of a line. -/
theorem cutFrom_append {w : Bytes} (h : ∀ b ∈ w, b ≠ carriageReturn) (acc rest : Bytes) :
    cutFrom (lineEnd ++ lineEnd) acc (w ++ rest) =
      cutFrom (lineEnd ++ lineEnd) (w.reverse ++ acc) rest := by
  induction w generalizing acc with
  | nil => rfl
  | cons b w ih =>
    have hb : carriageReturn ≠ b := (h b List.mem_cons_self).symm
    rw [List.cons_append, cutFrom_cons, if_neg (by simp [lineEnd, hb]),
      ih (fun b hb => h b (List.mem_cons_of_mem _ hb)), List.reverse_cons, List.append_assoc]
    rfl

/-- Behind the end of a line comes the next one. -/
theorem cutFrom_lineEnd {b : UInt8} (hb : b ≠ carriageReturn) (acc rest : Bytes) :
    cutFrom (lineEnd ++ lineEnd) acc (lineEnd ++ b :: rest) =
      cutFrom (lineEnd ++ lineEnd) (lineEnd.reverse ++ acc) (b :: rest) := by
  have hnext : carriageReturn ≠ b := hb.symm
  have hfeed : carriageReturn ≠ lineFeed := by decide
  have hfront : lineEnd ++ b :: rest = carriageReturn :: lineFeed :: b :: rest := rfl
  rw [hfront, cutFrom_cons, if_neg (by simp [lineEnd, hnext]), cutFrom_cons,
    if_neg (by simp [lineEnd, hfeed])]
  rfl

theorem cutFrom_empty (acc rest : Bytes) :
    cutFrom (lineEnd ++ lineEnd) acc (lineEnd ++ (lineEnd ++ rest)) = some (acc.reverse, rest) := by
  have hfront : lineEnd ++ (lineEnd ++ rest) =
      carriageReturn :: (lineFeed :: lineEnd ++ rest) := rfl
  rw [hfront, cutFrom_cons, if_pos (by simp [lineEnd])]
  rfl

theorem ofText_append (cs cs' : List Char) :
    Bytes.ofText (cs ++ cs') = Bytes.ofText cs ++ Bytes.ofText cs' := List.flatMap_append

theorem cutFrom_lines (acc rest : Bytes) : ∀ {text : List Char} {texts : List (List Char)},
    (∀ l ∈ text :: texts, IsLine l) →
    cutFrom (lineEnd ++ lineEnd) acc ((text :: texts).flatMap Response.line ++ (lineEnd ++ rest)) =
      some (acc.reverse ++ Bytes.ofText (List.intercalate ['\r', '\n'] (text :: texts)), rest)
  | text, [], h => by
    have hline := h text List.mem_cons_self
    rw [List.flatMap_singleton, Response.line, List.append_assoc,
      cutFrom_append hline.ne_carriageReturn, cutFrom_empty, List.intercalate_singleton]
    simp
  | text, next :: texts, h => by
    have hline := h text List.mem_cons_self
    have hrest : ∀ l ∈ next :: texts, IsLine l := fun l hl => h l (List.mem_cons_of_mem _ hl)
    obtain ⟨b, bs, hnext, hb⟩ := (hrest next List.mem_cons_self).exists_byte
    have hfront : (next :: texts).flatMap Response.line ++ (lineEnd ++ rest) =
        b :: (bs ++ lineEnd ++ (texts.flatMap Response.line ++ (lineEnd ++ rest))) := by
      rw [List.flatMap_cons, Response.line, hnext]
      simp
    have ih := cutFrom_lines (lineEnd.reverse ++ ((Bytes.ofText text).reverse ++ acc)) rest hrest
    rw [List.flatMap_cons, Response.line, List.append_assoc, List.append_assoc,
      cutFrom_append hline.ne_carriageReturn, hfront, cutFrom_lineEnd hb, ← hfront, ih,
      List.intercalate_cons_cons, ofText_append, ofText_append]
    have hend : Bytes.ofText ['\r', '\n'] = lineEnd := rfl
    simp [hend]

theorem lossy_ofText (cs : List Char) : Utf8.lossy (Bytes.ofText cs) = cs := by
  rw [Utf8.lossy_eq_iff]
  induction cs with
  | nil => exact .nil
  | cons c cs ih => exact ih.char

/-- The lines of a head are those that were written. -/
theorem lines_ofText {text : List Char} {texts : List (List Char)}
    (h : ∀ l ∈ text :: texts, IsLine l) :
    lines (Bytes.ofText (List.intercalate ['\r', '\n'] (text :: texts))) = text :: texts := by
  rw [lines, lossy_ofText]
  induction texts generalizing text with
  | nil =>
    have hline := h text List.mem_cons_self
    have hreturn := hline.beq_eq_false '\r' (by decide)
    rw [List.intercalate_singleton, Text.splitAll_eq_singleton (hline.beq_eq_false '\n' (by decide)),
      List.map_singleton, Text.trimBoth_eq_self (fun c hc => hreturn c (List.mem_of_mem_head? hc))
        (fun c hc => hreturn c (List.mem_of_mem_getLast? hc))]
  | cons next texts ih =>
    have hline := h text List.mem_cons_self
    have hreturn := hline.beq_eq_false '\r' (by decide)
    have hfeed : ∀ c ∈ text ++ ['\r'], (c == '\n') = false := by
      intro c hc
      rcases List.mem_append.1 hc with hc | hc
      · exact hline.beq_eq_false '\n' (by decide) c hc
      · obtain rfl := List.mem_singleton.1 hc
        rfl
    rw [List.intercalate_cons_cons, List.append_cons, List.append_assoc, List.singleton_append,
      Text.splitAll_append rfl hfeed, List.map_cons, Text.trimBoth_concat hreturn rfl,
      ih fun l hl => h l (List.mem_cons_of_mem _ hl)]

end Reply

/-- A text of visible characters can be sent. -/
theorem Http.sendable?_eq_some {cs : List Char} (h : ∀ c ∈ cs, Text.IsPrint c) :
    sendable? cs = some cs := by
  refine if_pos (List.all_eq_true.2 fun b hb => ?_)
  obtain ⟨c, hc, hb⟩ := List.mem_flatMap.1 hb
  have hvisible := isVisibleByte_of_isPrint (h c hc) hb
  simp [isVisibleByte, hvisible]

/-! ### Fields -/

/-- A name as it is read. -/
structure LegibleName (name : String) : Prop where
  word : Text.IsWord name.toList
  lower : Text.lower name.toList = name.toList
  noColon : ':' ∉ name.toList

instance : DecidablePred LegibleName := fun name =>
  decidable_of_iff
    (Text.IsWord name.toList ∧ Text.lower name.toList = name.toList ∧ ':' ∉ name.toList)
    ⟨fun h => ⟨h.1, h.2.1, h.2.2⟩, fun h => ⟨h.1, h.2, h.3⟩⟩

/-- A field whose name and value are found again in its line. -/
structure LegibleField (f : String × List Char) : Prop where
  name : LegibleName f.1
  value : Text.IsPlain f.2

/-- A field as it is read. -/
def Reply.fieldOf (f : String × List Char) : List Char × List Char :=
  (f.1.toList, f.2)

namespace LegibleField

theorem of {name : String} {value : List Char} (hname : LegibleName name)
    (hvalue : Text.IsPlain value) : LegibleField (name, value) := ⟨hname, hvalue⟩

variable {f : String × List Char}

theorem isLine (h : LegibleField f) : IsLine (f.1.toList ++ ':' :: ' ' :: f.2) where
  ne_nil := by simp
  print c hc := by
    rcases List.mem_append.1 hc with hc | hc
    · exact h.name.word.isPlain.print c hc
    rcases List.mem_cons.1 hc with rfl | hc
    · decide
    rcases List.mem_cons.1 hc with rfl | hc
    · decide
    · exact h.value.print c hc

theorem field?_eq (h : LegibleField f) :
    Reply.field? (f.1.toList ++ ':' :: ' ' :: f.2) = some (Reply.fieldOf f) := by
  rw [Reply.field?, Text.splitFirst_append h.name.noColon, Option.map_some]
  dsimp only
  rw [h.name.word.isPlain.trim_eq, h.name.lower, h.value.trim_space, Reply.fieldOf]

end LegibleField

namespace Response

/-- A response that can be read. -/
structure Legible (r : Response) : Prop where
  fields : ∀ f ∈ r.fields, LegibleField f
  noLength : ∀ f ∈ r.fields, f.1 ≠ "content-length"
  body : r.status = .switchingProtocols → r.body = []

/-- What a client reads of a response. -/
def reply (r : Response) (version : HttpVersion) (method : List Char) : Reply where
  statusLine := statusLine r.status version
  fields := r.allFields.map Reply.fieldOf
  body := if method = "HEAD".toList then [] else r.body

variable {r : Response}

theorem isWord_word (option : ConnectionOption) : Text.IsWord option.word.toList := by
  cases option <;> decide

theorem legible_connectionField : ∀ f ∈ r.connectionField, LegibleField f := by
  unfold connectionField
  split
  · nofun
  · intro f hf
    obtain rfl := List.mem_singleton.1 hf
    refine .of (by decide) (Text.isPlain_intercalate (Text.isPrint_of_all rfl) fun w hw => ?_)
    obtain ⟨option, -, rfl⟩ := List.mem_map.1 hw
    exact isWord_word option

theorem legible_lengthField : ∀ f ∈ r.lengthField, LegibleField f := by
  unfold lengthField
  split
  · nofun
  · intro f hf
    obtain rfl := List.mem_singleton.1 hf
    exact .of (by decide) (Text.isWord_ofNat _).isPlain

theorem Legible.allFields (h : r.Legible) : ∀ f ∈ r.allFields, LegibleField f := by
  intro f hf
  rcases List.mem_append.1 hf with hf | hf
  · rcases List.mem_append.1 hf with hf | hf
    · exact h.fields f hf
    · exact legible_connectionField f hf
  · exact legible_lengthField f hf

theorem isLine_statusLine (status : Status) (version : HttpVersion) :
    IsLine (statusLine status version) := by
  cases version <;> cases status <;> exact ⟨by decide, Text.isPrint_of_all (by decide)⟩

theorem lookup_append {fs rest : List (String × List Char)} {name : String}
    (h : ∀ f ∈ fs, f.1 ≠ name) :
    ((fs ++ rest).map Reply.fieldOf).lookup name.toList =
      (rest.map Reply.fieldOf).lookup name.toList := by
  induction fs with
  | nil => rfl
  | cons f fs ih =>
    have hne : (name.toList == (Reply.fieldOf f).1) = false := by
      rw [beq_eq_false_iff_ne]
      exact fun heq => h f List.mem_cons_self (String.toList_inj.1 heq).symm
    rw [List.cons_append, List.map_cons, List.lookup_cons, hne]
    exact ih fun f hf => h f (List.mem_cons_of_mem _ hf)

theorem lookup_eq_none {fs : List (String × List Char)} {name : String}
    (h : ∀ f ∈ fs, f.1 ≠ name) : (fs.map Reply.fieldOf).lookup name.toList = none := by
  rw [← List.append_nil fs, lookup_append h]
  rfl

/-- The first field with a name counts. -/
theorem lookup_first (fs rest : List (String × List Char)) {name : String} {value : List Char}
    (h : ∀ f ∈ fs, f.1 ≠ name) :
    ((fs ++ (name, value) :: rest).map Reply.fieldOf).lookup name.toList = some value := by
  rw [lookup_append h]
  exact List.lookup_cons_self

theorem ne_of_mem_connectionField {name : String} (hname : name ≠ "connection") :
    ∀ f ∈ r.connectionField, f.1 ≠ name := by
  unfold connectionField
  split
  · nofun
  · intro f hf
    obtain rfl := List.mem_singleton.1 hf
    exact hname.symm

theorem Legible.ne_length (h : r.Legible) :
    ∀ f ∈ r.fields ++ r.connectionField, f.1 ≠ "content-length" := by
  intro f hf
  exact (List.mem_append.1 hf).elim (h.noLength f) (ne_of_mem_connectionField (by decide) f)

/-- The length of the body is told by the field for it. -/
theorem Legible.lookup_length (h : r.Legible) (hs : r.status ≠ .switchingProtocols) :
    (r.allFields.map Reply.fieldOf).lookup "content-length".toList =
      some (Numeral.ofNat r.body.length) := by
  rw [Response.allFields, lengthField_of_ne hs]
  exact lookup_first _ [] h.ne_length

/-- The length that the fields tell. No other field has its name. -/
theorem Legible.lengthOf (h : r.Legible) (hlt : r.body.length < UInt64.size) :
    Reply.lengthOf (r.allFields.map Reply.fieldOf) = r.body.length := by
  by_cases hs : r.status = .switchingProtocols
  · rw [Reply.lengthOf, Response.allFields, lookup_append h.ne_length, lengthField, if_pos hs,
      h.body hs]
    rfl
  · rw [Reply.lengthOf, h.lookup_length hs, Option.bind_some, Numeral.digits?_ofNat hlt,
      Option.getD_some]

/-- What a client is told about the connection changes nothing else. -/
theorem adapt_eq (r : Response) (version : HttpVersion) (persistent : Bool) :
    ∃ connection, r.adapt version persistent = { r with connection } := by
  have hsaying (option : ConnectionOption) :
      ∃ connection, r.saying option = { r with connection } := by
    unfold saying
    split
    · exact ⟨r.connection, rfl⟩
    · exact ⟨_, rfl⟩
  unfold Response.adapt
  cases version <;> cases persistent <;> first | exact ⟨r.connection, rfl⟩ | exact hsaying _

theorem Legible.adapt (h : r.Legible) (version : HttpVersion) (persistent : Bool) :
    (r.adapt version persistent).Legible := by
  obtain ⟨connection, hr⟩ := r.adapt_eq version persistent
  rw [hr]
  exact ⟨h.fields, h.noLength, h.body⟩

/-- The texts of the lines of a head. -/
def texts (r : Response) : List (List Char) :=
  r.allFields.map fun (name, value) => name.toList ++ ':' :: ' ' :: value

theorem head_eq (version : HttpVersion) :
    r.head version =
      (statusLine r.status version :: r.texts).flatMap line ++ lineEnd := by
  rw [head, texts, List.flatMap_cons, List.flatMap_map]

theorem Legible.isLine (h : r.Legible) (version : HttpVersion) :
    ∀ l ∈ statusLine r.status version :: r.texts, IsLine l := by
  intro l hl
  rcases List.mem_cons.1 hl with rfl | hl
  · exact isLine_statusLine r.status version
  · obtain ⟨f, hf, rfl⟩ := List.mem_map.1 hl
    exact (h.allFields f hf).isLine

theorem Legible.filterMap_texts (h : r.Legible) :
    r.texts.filterMap Reply.field? = r.allFields.map Reply.fieldOf := by
  have hfields := h.allFields
  unfold texts
  generalize r.allFields = fs at hfields
  induction fs with
  | nil => rfl
  | cons f fs ih =>
    rw [List.map_cons, List.filterMap_cons_some (hfields f List.mem_cons_self).field?_eq,
      ih fun f hf => hfields f (List.mem_cons_of_mem _ hf), List.map_cons]

end Response

/-- What was written is read, whatever stands behind it. -/
theorem Reply.read?_bytes {r : Response} (h : r.Legible) (version : HttpVersion)
    (method : List Char) (hlt : r.body.length < UInt64.size) (rest : Bytes) :
    Reply.read? (method = "HEAD".toList) (r.bytes version method ++ rest) =
      some (r.reply version method, rest) := by
  have hcut := cutFrom_lines [] ((if method = "HEAD".toList then [] else r.body) ++ rest)
    (h.isLine version)
  have hlines := lines_ofText (h.isLine version)
  rw [read?, Response.bytes, Response.head_eq, cut, List.append_assoc, List.append_assoc, hcut]
  simp only [List.reverse_nil, List.nil_append, hlines, h.filterMap_texts, h.lengthOf hlt]
  unfold Response.reply
  by_cases hm : method = "HEAD".toList
  · simp [hm]
  · simp only [decide_eq_true_eq, if_neg hm, List.length_append]
    rw [if_neg (by omega), List.take_left' rfl, List.drop_left' rfl]

end Switchyard
