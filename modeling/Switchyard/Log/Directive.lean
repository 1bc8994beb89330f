import Switchyard.Log.Basic
import Switchyard.Log.Pattern
import Switchyard.Text.Numeral
import Switchyard.Text.Split
import Switchyard.Text.Utf8

/-!
# Directives

A directive tells which lines of the log are shown. It is a level, or what it concerns and perhaps a
level behind an equals sign: a target, that is, the beginning of a source; the name of a span in
brackets; and within the brackets a field in braces. A directive without a level lets everything
pass. Nothing of the program is in a span, and the only field that a line has is its text.
-/

namespace Switchyard

/-- The highest rank that a word or a number lets pass. -/
def LogLevel.threshold? (word : List Char) : Option Nat :=
  match Numeral.below? UInt64.size word with
  | some n => if n ≤ trace.rank then some n else none
  | none =>
    [("off", 0), ("error", error.rank), ("warn", warn.rank), ("info", info.rank),
      ("debug", debug.rank), ("trace", trace.rank)].findSome? fun (w, n) =>
        if Text.sameIgnoringCase word w.toList then some n else none

/-- A field that lines are asked to have. -/
structure FieldFilter where
  name : List Char
  /-- It is also asked to have a certain value. -/
  withValue : Bool
  deriving DecidableEq, Repr

/-- Reads the field in a directive: a name, and perhaps a value behind an equals sign. -/
def FieldFilter.ofText? (cs : List Char) : Option FieldFilter :=
  if cs = [] then none
  else
    match Text.splitAll (· == '=') cs with
    | name :: value :: _ => if LogPattern.isValue value then some ⟨name, true⟩ else none
    | [name] => some ⟨name, false⟩
    | [] => none

/-- Why a text is no directive. -/
inductive DirectiveFault where
  | malformed
  /-- A part of it begins or ends within a character. -/
  | torn
  deriving DecidableEq, Repr

/-- Which lines a directive concerns, and the highest rank that it lets pass. -/
structure Directive where
  target : Option (List Char)
  span : Option (List Char)
  field : Option FieldFilter
  threshold : Nat
  deriving DecidableEq, Repr

namespace Directive

/-- The directive that lets everything pass. -/
def all : Directive :=
  ⟨none, none, none, LogLevel.trace.rank⟩

/-! ### Reading -/

/-- What is being read. A number is the place where it begins, in bytes. -/
inductive Stage where
  | start
  /-- A target, or a level that stands alone. -/
  | word (since : Nat)
  | span (since : Nat)
  | field (since : Nat)
  /-- Behind the field in a span. -/
  | afterField
  | afterSpan
  | level (since : Nat)
  deriving DecidableEq, Repr

/-- A character begins at the place, or the text ends there. -/
def isBoundary (text : Bytes) (place : Nat) : Bool :=
  text[place]?.all fun b => b < 0x80 || 0xC0 ≤ b

/-- The text from one place to another. -/
def cut (text : Bytes) (since till : Nat) : Except DirectiveFault (List Char) :=
  if isBoundary text since && isBoundary text till then
    .ok (Utf8.lossy ((text.drop since).take (till - since)))
  else .error .torn

/-- A word can begin with the character. -/
def startsWord (c : Char) : Bool :=
  Text.isAlphanumeric c || "-:_".toList.contains c

/-- Takes in the character at a place. -/
def step (text : Bytes) (stage : Stage) (d : Directive) (c : Char) (place : Nat) :
    Except DirectiveFault (Stage × Directive) :=
  match stage with
  | .start =>
    if c = '[' then .ok (.span (place + 1), d)
    else if startsWord c then .ok (.word place, d)
    else .error .malformed
  | .word since =>
    if c = '=' then do
      return (.level (place + 1), { d with target := some (← cut text since place) })
    else if c = '[' then do
      return (.span (place + 1), { d with target := some (← cut text since place) })
    else .ok (stage, d)
  | .span since =>
    if c = ']' then do
      return (.afterSpan, { d with span := some (← cut text since place) })
    else if c = '\x7b' then do
      let name ← cut text since place
      return (.field (place + 1), { d with span := if name = [] then none else some name })
    else .ok (stage, d)
  | .field since =>
    if c = '\x7d' then do
      match FieldFilter.ofText? (← cut text since place) with
      | some f => return (.afterField, { d with field := some f })
      | none => throw .malformed
    else .ok (stage, d)
  | .afterField => if c = ']' then .ok (.afterSpan, d) else .error .malformed
  | .afterSpan => if c = '=' then .ok (.level (place + 1), d) else .error .malformed
  | .level _ => .ok (stage, d)

/-- What is left to read at the end. A word that is no level is a target. -/
def finish (text : Bytes) (stage : Stage) (d : Directive) : Except DirectiveFault Directive :=
  match stage with
  | .word since => do
    let word ← cut text since text.length
    match LogLevel.threshold? word with
    | some threshold => return { all with threshold }
    | none => return { all with target := some word }
  | .level since => do
    let word ← cut text since text.length
    if word = [] then return d
    match LogLevel.threshold? word with
    | some threshold => return { d with threshold }
    | none => throw .malformed
  | .start | .span _ | .field _ | .afterField | .afterSpan => .ok d

/-- The characters of a text with their places. -/
def places (cs : List Char) : List (Char × Nat) :=
  (cs.foldl (fun (ps, place) c => ((c, place) :: ps, place + c.utf8Size)) ([], 0)).1.reverse

/-- Reads a directive. Its marks are looked for without the blanks around the text, and their places
counted from there; its parts are cut out of the whole text, so that blanks before it make them
begin too early. -/
def ofText (cs : List Char) : Except DirectiveFault Directive := do
  let text := Bytes.ofText cs
  let (stage, d) ← (places (Text.trim cs)).foldlM
    (fun (stage, d) (c, place) => step text stage d c place) (Stage.start, all)
  finish text stage d

/-! ### What a directive concerns -/

/-- The directive concerns the lines from a source. -/
def concerns (source : List Char) (d : Directive) : Bool :=
  d.span.isNone && d.target.all (·.isPrefixOf source) &&
    d.field.all fun f => !f.withValue && f.name == LogLine.textField

/-- How closely a directive says what it concerns: by its target, and then by its field. -/
def closeness (d : Directive) : Nat :=
  2 * (d.target.elim 0 fun t => t.length + 1) + (if d.field.isSome then 1 else 0)

/-- The closest of the directives; of equals the last one. -/
def closest (ds : List Directive) : Option Directive :=
  ds.foldl
    (fun best d =>
      match best with
      | some b => if d.closeness < b.closeness then best else some d
      | none => some d)
    none

end Directive

end Switchyard
