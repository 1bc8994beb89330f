import Switchyard.Http.Target
import Switchyard.Text.Numeral
import Switchyard.Text.Utf8

/-!
# Requests

A head is a request line and fields, up to an empty line (RFC 9112). It is read as soon as all of it
is there, and refused as soon as a part cannot be right. `Request.ofHead` then finds out what the
target is and how the end of the body is marked. Reading a request takes bytes away:
`Request.read_shortens`.
-/

namespace Switchyard

/-- The versions of HTTP that are served. -/
inductive HttpVersion where
  | http10
  | http11
  deriving DecidableEq, Repr

/-- A field of a header. -/
structure HeaderField where
  /-- The name, in lower case. -/
  name : List Char
  /-- The value, without blanks around it. -/
  value : Bytes
  deriving DecidableEq, Repr

/-- A head as it is written. -/
structure RequestHead where
  method : List Char
  target : Bytes
  version : HttpVersion
  fields : List HeaderField
  deriving DecidableEq, Repr

namespace Http

/-- Reads the version. -/
def version (bs : Bytes) : Scan HttpVersion :=
  if bs.length < 8 then
    if bs.isPrefixOf (Bytes.ofString "HTTP/1.") then .short else .bad .malformed
  else if bs.take 8 = Bytes.ofString "HTTP/1.1" then .done .http11 (bs.drop 8)
  else if bs.take 8 = Bytes.ofString "HTTP/1.0" then .done .http10 (bs.drop 8)
  else .bad .malformed

/-- Reads a target, which is UTF-8, and the space behind it. -/
def target (bs : Bytes) : Scan Bytes :=
  (word isTargetByte space bs).bind fun t rest =>
    if (Utf8.decode? t).isSome then .done t rest else .bad .malformed

/-- A value without blanks at its end. -/
def trimEnd (bs : Bytes) : Bytes :=
  (bs.reverse.dropWhile isBlankByte).reverse

/-- Reads a value up to the end of its line. -/
def fieldValue (bs : Bytes) : Scan Bytes :=
  let bs := bs.dropWhile isBlankByte
  (newline (bs.dropWhile isValueByte)).bind fun _ rest =>
    .done (trimEnd (bs.takeWhile isValueByte)) rest

/-- Reads a field. -/
def field (bs : Bytes) : Scan HeaderField :=
  (word isTokenByte colon bs).bind fun name rest =>
    (fieldValue rest).bind fun value rest => .done ⟨Text.lower name.latin, value⟩ rest

/-- Reads fields up to an empty line, as long as there is room for more. The fields in `acc` stand
before them, last first. -/
def fields (room : Nat) (acc : List HeaderField) (bs : Bytes) : Scan (List HeaderField) :=
  match bs with
  | [] => .short
  | b :: _ =>
    if b = lineFeed ∨ b = carriageReturn then
      (newline bs).bind fun _ rest => .done acc.reverse rest
    else
      match room with
      | 0 => (field bs).bind fun _ _ => .bad .headTooLarge
      | room + 1 => (field bs).bind fun f rest => fields room (f :: acc) rest

/-- How many fields a head may have. -/
def maxFields : Nat := 100

/-- Reads the request line. -/
def requestLine (bs : Bytes) : Scan (List Char × Bytes × HttpVersion) :=
  (word isTokenByte space bs).bind fun method rest =>
    (target rest).bind fun target rest =>
      (version rest).bind fun version rest =>
        (newline rest).bind fun _ rest => .done (method.latin, target, version) rest

/-- The longest target. -/
def maxTarget : Nat := 65534

/-- The longest name of a field. -/
def maxName : Nat := 65535

/-- A head whose parts are not too long. -/
def checked (h : RequestHead) (rest : Bytes) : Scan RequestHead :=
  if maxTarget < h.target.length then .bad .targetTooLong
  else if h.fields.any (maxName < ·.name.length) then .bad .headTooLarge
  else .done h rest

/-- Reads a head. -/
def head (bs : Bytes) : Scan RequestHead :=
  (skipEmptyLines bs).bind fun _ rest =>
    (requestLine rest).bind fun (method, target, version) rest =>
      (fields maxFields [] rest).bind fun fields rest =>
        checked ⟨method, target, version, fields⟩ rest

/-! ### Nothing is given back twice -/

theorem version_within (bs : Bytes) : (version bs).Within bs.length := by
  unfold version
  repeat' split
  all_goals first
    | exact True.intro
    | simp only [Scan.Within, List.length_drop, Nat.sub_le]

theorem target_within (bs : Bytes) : (target bs).Within bs.length :=
  (word_within isTargetByte space bs).bind fun t rest h => by
    split
    · exact Nat.le_trans h (Nat.sub_le _ _)
    · trivial

theorem fieldValue_within (bs : Bytes) : (fieldValue bs).Within bs.length :=
  ((newline_within _).mono (Nat.sub_le _ _)).bind fun _ _ h =>
    Nat.le_trans h
      (Nat.le_trans (length_dropWhile_le isValueByte _) (length_dropWhile_le isBlankByte bs))

theorem field_within (bs : Bytes) : (field bs).Within bs.length :=
  ((word_within isTokenByte colon bs).mono (Nat.sub_le _ _)).bind fun _ rest h =>
    ((fieldValue_within rest).mono h).bind fun _ _ h => h

theorem fields_within (room : Nat) (acc : List HeaderField) (bs : Bytes) :
    (fields room acc bs).Within bs.length := by
  induction room generalizing acc bs with
  | zero =>
    unfold fields
    split
    · trivial
    · split
      · exact ((newline_within _).mono (Nat.sub_le _ _)).bind fun _ _ h => h
      · exact (field_within _).bind fun _ _ _ => trivial
  | succ room ih =>
    unfold fields
    split
    · trivial
    · split
      · exact ((newline_within _).mono (Nat.sub_le _ _)).bind fun _ _ h => h
      · exact (field_within _).bind fun f rest h => (ih (f :: acc) rest).mono h

theorem requestLine_within (bs : Bytes) : (requestLine bs).Within (bs.length - 1) :=
  (word_within isTokenByte space bs).bind fun _ rest h =>
    ((target_within rest).mono h).bind fun _ rest h =>
      ((version_within rest).mono h).bind fun _ rest h =>
        ((newline_within rest).mono (Nat.le_trans (Nat.sub_le _ _) h)).bind fun _ _ h => h

theorem checked_within (h : RequestHead) (rest : Bytes) : (checked h rest).Within rest.length := by
  unfold checked
  repeat' split
  all_goals first
    | exact True.intro
    | exact Nat.le_refl _

theorem head_within (bs : Bytes) : (head bs).Within (bs.length - 1) :=
  (skipEmptyLines_within bs).bind fun _ rest h =>
    ((requestLine_within rest).mono (Nat.sub_le_sub_right h 1)).bind fun _ rest h =>
      ((fields_within maxFields [] rest).mono h).bind fun _ rest h => (checked_within _ rest).mono h

/-! ### Values -/

/-- The text of a value whose bytes are all visible. -/
def visible? (value : Bytes) : Option (List Char) :=
  if value.all isVisibleByte then some value.latin else none

/-- The parts of a value between commas. -/
def listed (value : Bytes) : List (List Char) :=
  match visible? value with
  | some cs => (Text.splitAll (· == ',') cs).map Text.trim
  | none => []

/-- The value lists the word, in any case. -/
def lists (word : String) (value : Bytes) : Bool :=
  (listed value).any (Text.sameIgnoringCase word.toList)

/-- The values of the fields with this name, in order. -/
def valuesOf (name : String) (fields : List HeaderField) : List Bytes :=
  (fields.filter (·.name = name.toList)).map HeaderField.value

end Http

/-! ### What a head means -/

/-- How the end of a body is marked. -/
inductive Framing where
  /-- There is no body. -/
  | empty
  /-- The body has this many bytes. -/
  | counted (n : Nat)
  /-- The body is cut into chunks. -/
  | chunked
  deriving DecidableEq, Repr

namespace Framing

/-- The number of a length field. -/
def length? (value : Bytes) : Except RequestFault Nat :=
  match Numeral.digits? UInt64.size value.latin with
  | some n => .ok n
  | none => .error .malformed

/-- The framing by length fields, which have to agree. -/
def ofLengths : List Bytes → Except RequestFault Framing
  | [] => .ok empty
  | value :: values => do
    let n ← length? value
    if UInt64.size - 2 ≤ n then throw .headTooLarge
    if (← values.mapM length?).all (· = n) then return if n = 0 then empty else counted n
    else throw .malformed

/-- The framing that the fields ask for. Length fields behind a coding do not count, and chunks have
to be the last coding. -/
def ofFields (version : HttpVersion) (fields : List HeaderField) : Except RequestFault Framing := do
  let counted ← ofLengths <| Http.valuesOf "content-length" <|
    fields.takeWhile (·.name ≠ "transfer-encoding".toList)
  match (Http.valuesOf "transfer-encoding" fields).getLast? with
  | none => return counted
  | some coding =>
    if version = .http11 ∧
        ((Http.listed coding).getLast?.any (Text.sameIgnoringCase "chunked".toList)) then
      return chunked
    else throw .malformed

end Framing

/-- A request. -/
structure Request where
  method : List Char
  target : Target
  version : HttpVersion
  fields : List HeaderField
  framing : Framing
  /-- Something of its head has to be kept as long as the request. -/
  keepsHead : Bool
  deriving DecidableEq, Repr

/-- What stands at the front of the bytes of a client. -/
inductive RequestRead where
  /-- A request, and the bytes behind its head. -/
  | request (r : Request) (rest : Bytes)
  /-- More bytes are needed. -/
  | short
  /-- No request can begin so. When the head as such is complete, it is taken off the bytes. -/
  | fault (e : RequestFault) (rest : Bytes)
  deriving DecidableEq, Repr

/-- Something in a head has to be kept: a value, or a target other than the two short ones that all
requests share. -/
def RequestHead.isKept (h : RequestHead) : Bool :=
  !([Bytes.ofString "/", Bytes.ofString "*"].contains h.target) || h.fields.any (·.value ≠ [])

namespace Request

/-- The values of a field, in order. -/
def values (r : Request) (name : String) : List Bytes :=
  Http.valuesOf name r.fields

/-- The client wants the connection to stay open, and the end of its request is beyond doubt. A word
against it counts more than one for it, which an older client has to say. -/
def keepsOpen (r : Request) : Bool :=
  let options := r.values "connection"
  !options.any (Http.lists "close") &&
    (r.version = .http11 || options.any (Http.lists "keep-alive")) &&
    (r.values "transfer-encoding" = [] || r.values "content-length" = [])

/-- The client waits for a word before it sends the body. -/
def awaitsContinue (r : Request) : Bool :=
  r.version = .http11 ∧
    ((r.values "expect").getLast?.any fun value =>
      Text.sameIgnoringCase value.latin "100-continue".toList)

/-- The request that a head stands for. -/
def ofHead (h : RequestHead) : Except RequestFault Request :=
  match Target.ofBytes? h.target with
  | none => throw .malformed
  | some target => do
    let framing ← Framing.ofFields h.version h.fields
    return ⟨h.method, target, h.version, h.fields, framing, h.isKept⟩

/-- Reads the head of a request off the front of a byte string. -/
def read (bs : Bytes) : RequestRead :=
  match Http.head bs with
  | .done h rest =>
    match ofHead h with
    | .ok r => .request r rest
    | .error e => .fault e rest
  | .short => .short
  | .bad e => .fault e bs

theorem read_shortens {bs rest : Bytes} {r : Request} (h : read bs = .request r rest) :
    rest.length < bs.length := by
  have hw := Http.head_within bs
  have hne : bs ≠ [] := by
    rintro rfl
    cases h
  have := List.length_pos_iff.2 hne
  unfold read at h
  split at h
  · next hh =>
    rw [hh] at hw
    split at h
    · cases h
      simp only [Scan.Within] at hw
      omega
    · cases h
  · cases h
  · cases h

end Request

end Switchyard
