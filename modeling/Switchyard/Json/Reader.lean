import Switchyard.Json.Value

/-!
# Reading JSON

A recursive descent over the grammar of RFC 8259. Each reader returns what it read and a rest that
is shorter than the text, which is why the reading ends. Values may be nested to any depth: no text
opens more of them than it has characters.
-/

namespace Switchyard.Json

/-- A rest that is shorter than the text `cs`. -/
abbrev Shorter (cs : List Char) := { rest : List Char // rest.length < cs.length }

/-- Reads a value off the front of a text. -/
abbrev Reader (α : Type) := (cs : List Char) → Option (α × Shorter cs)

/-! ### Blanks and literals -/

/-- White space between the parts of a document. -/
def isBlank (c : Char) : Bool :=
  c == ' ' || c == '\t' || c == '\n' || c == '\r'

/-- The text without white space before it. -/
def skipBlank (cs : List Char) : List Char :=
  cs.dropWhile isBlank

theorem length_dropWhile_le {α : Type} (p : α → Bool) (xs : List α) :
    (xs.dropWhile p).length ≤ xs.length :=
  (List.dropWhile_suffix p).length_le

theorem length_skipBlank_le (cs : List Char) : (skipBlank cs).length ≤ cs.length :=
  length_dropWhile_le isBlank cs

theorem length_lt_of_skipBlank {cs rest : List Char} {c : Char} (h : skipBlank cs = c :: rest) :
    rest.length < cs.length := by
  have hle := length_skipBlank_le cs
  rw [h] at hle
  exact hle

/-! ### Strings -/

/-- The 16-bit unit that four hexadecimal digits write. -/
def unit? (a b c d : Char) : Option Nat := do
  return (((← Hex.value? a) * 16 + (← Hex.value? b)) * 16 + (← Hex.value? c)) * 16 +
    (← Hex.value? d)

/-- The character behind a backslash stands for this one. -/
def escaped? (c : Char) : Option Char :=
  if c = '"' ∨ c = '\\' ∨ c = '/' then some c
  else if c = 'b' then some '\x08'
  else if c = 'f' then some '\x0c'
  else if c = 'n' then some '\n'
  else if c = 'r' then some '\r'
  else if c = 't' then some '\t'
  else none

/-- Reads the parts of a string and the quote at its end; `acc` holds the parts before, last
first. -/
def stringParts (acc : List StringPart) : List Char → Option (List StringPart × List Char)
  | '\\' :: 'u' :: a :: b :: c :: d :: cs =>
    match unit? a b c d with
    | some n => stringParts (.unit n :: acc) cs
    | none => none
  | '\\' :: c :: cs =>
    match escaped? c with
    | some e => stringParts (.char e :: acc) cs
    | none => none
  | c :: cs =>
    if c = '"' then some (acc.reverse, cs)
    else if c = '\\' ∨ c.toNat < 0x20 then none
    else stringParts (.char c :: acc) cs
  | [] => none

theorem length_lt_of_stringParts {acc parts : List StringPart} {cs rest : List Char}
    (h : stringParts acc cs = some (parts, rest)) : rest.length < cs.length := by
  fun_induction stringParts acc cs with
  | case1 acc a b c d cs n _ ih => have := ih h; simp only [List.length_cons]; omega
  | case2 => cases h
  | case3 acc c cs _ e _ ih => have := ih h; simp only [List.length_cons]; omega
  | case4 => cases h
  | case5 acc cs => cases h; simp
  | case6 => cases h
  | case7 acc c cs _ _ _ _ ih => have := ih h; simp only [List.length_cons]; omega
  | case8 => cases h

/-- A string, from its first quote on. -/
def readString : Reader (Option (List Char)) := fun cs =>
  match cs with
  | '"' :: rest =>
    match h : stringParts [] rest with
    | some (parts, rest') =>
      some (StringPart.text? parts, ⟨rest', by
        have := length_lt_of_stringParts h
        simp only [List.length_cons]
        omega⟩)
    | none => none
  | _ => none

/-! ### Numbers -/

/-- Is an ASCII digit. -/
def isDigit (c : Char) : Bool :=
  '0' ≤ c && c ≤ '9'

/-- The digits at the front of a text, at least one, and the rest. -/
def digits? (cs : List Char) : Option (List Char × Shorter cs) :=
  match cs with
  | c :: rest =>
    if isDigit c then
      some (c :: rest.takeWhile isDigit, ⟨rest.dropWhile isDigit, by
        have := length_dropWhile_le isDigit rest
        simp only [List.length_cons]
        omega⟩)
    else none
  | [] => none

/-- The digits of an integer: no zero stands before another digit. -/
def integerDigits? (cs : List Char) : Option (List Char × Shorter cs) :=
  match cs with
  | '0' :: rest => some (['0'], ⟨rest, by simp⟩)
  | cs => digits? cs

/-- A text no longer than `cs`. -/
abbrev NoLonger (cs : List Char) := { rest : List Char // rest.length ≤ cs.length }

/-- Skips a fraction, and tells whether there was one. -/
def fraction? (cs : List Char) : Option (Bool × NoLonger cs) :=
  match cs with
  | '.' :: rest =>
    (digits? rest).map fun (_, ⟨rest', h⟩) => (true, ⟨rest', by simp only [List.length_cons]; omega⟩)
  | cs => some (false, ⟨cs, Nat.le_refl _⟩)

/-- Skips the sign of an exponent. -/
def skipSign (cs : List Char) : NoLonger cs :=
  match cs with
  | '+' :: rest => ⟨rest, by simp⟩
  | '-' :: rest => ⟨rest, by simp⟩
  | cs => ⟨cs, Nat.le_refl _⟩

/-- Skips an exponent, and tells whether there was one. -/
def exponent? (cs : List Char) : Option (Bool × NoLonger cs) :=
  match cs with
  | c :: rest =>
    if c = 'e' ∨ c = 'E' then
      (digits? (skipSign rest).1).map fun (_, ⟨rest', h⟩) =>
        (true, ⟨rest', by
          have := (skipSign rest).2
          simp only [List.length_cons]
          omega⟩)
    else some (false, ⟨c :: rest, Nat.le_refl _⟩)
  | [] => some (false, ⟨[], Nat.le_refl _⟩)

/-- The number that digits write. -/
def digitsValue (ds : List Char) : Nat :=
  ds.foldl (fun n c => 10 * n + (c.toNat - '0'.toNat)) 0

/-- The value of an integer with a sign; minus zero has none. -/
def signedValue (negative : Bool) (n : Nat) : Option Int :=
  if negative then if n = 0 then none else some (-(n : Int)) else some n

/-- An unsigned number. The result is its value as an integer with the given sign. -/
def unsigned (negative : Bool) : Reader (Option Int) := fun cs => do
  let (ds, ⟨r, hr⟩) ← integerDigits? cs
  let (hasFraction, ⟨s, hs⟩) ← fraction? r
  let (hasExponent, ⟨t, ht⟩) ← exponent? s
  let value := if hasFraction ∨ hasExponent then none else signedValue negative (digitsValue ds)
  return (value, ⟨t, by omega⟩)

/-- A number. -/
def readNumber : Reader (Option Int) := fun cs =>
  match cs with
  | '-' :: rest =>
    (unsigned true rest).map fun (n, ⟨r, h⟩) => (n, ⟨r, by simp only [List.length_cons]; omega⟩)
  | cs => unsigned false cs

/-! ### Values -/

/-- The values that are written as words. -/
def literals : List (List Char × Json) :=
  [("null".toList, .null), ("true".toList, .bool true), ("false".toList, .bool false)]

/-- A word for a value. -/
def literal : Reader Json := fun cs =>
  literals.findSome? fun (word, value) =>
    if h : word <+: cs ∧ word ≠ [] then
      some (value, ⟨cs.drop word.length, by
        have h1 := h.1.length_le
        have h2 := List.length_pos_iff.2 h.2
        simp only [List.length_drop]
        omega⟩)
    else none

/-- A value without parts. -/
def scalar : Reader Json := fun cs =>
  match cs.head? with
  | some '"' => (readString cs).map fun (text, rest) => (.string text, rest)
  | some c =>
    if c = '-' ∨ isDigit c then (readNumber cs).map fun (n, rest) => (.number n, rest)
    else literal cs
  | none => none

/-- The items of an array and the bracket at its end; there is at least one item. -/
def items (item : Reader Json) (cs : List Char) : Option (List Json × Shorter cs) :=
  match item (skipBlank cs) with
  | none => none
  | some (value, ⟨r, hr⟩) =>
    have hr : r.length < cs.length := Nat.lt_of_lt_of_le hr (length_skipBlank_le cs)
    match h : skipBlank r with
    | ',' :: s =>
      have hs := length_lt_of_skipBlank h
      match items item s with
      | some (values, ⟨t, ht⟩) => some (value :: values, ⟨t, by omega⟩)
      | none => none
    | ']' :: s =>
      have hs := length_lt_of_skipBlank h
      some ([value], ⟨s, by omega⟩)
    | _ => none
termination_by cs.length

/-- A key, a colon and a value. -/
def member (item : Reader Json) : Reader (Option (List Char) × Json) := fun cs =>
  match readString (skipBlank cs) with
  | none => none
  | some (key, ⟨r, hr⟩) =>
    have hr : r.length < cs.length := Nat.lt_of_lt_of_le hr (length_skipBlank_le cs)
    match h : skipBlank r with
    | ':' :: s =>
      have hs := length_lt_of_skipBlank h
      match item (skipBlank s) with
      | some (value, ⟨t, ht⟩) =>
        some ((key, value), ⟨t, by
          have := length_skipBlank_le s
          omega⟩)
      | none => none
    | _ => none

/-- The members of an object and the brace at its end; there is at least one member. -/
def members (item : Reader Json) (cs : List Char) :
    Option (List (Option (List Char) × Json) × Shorter cs) :=
  match member item cs with
  | none => none
  | some (m, ⟨r, hr⟩) =>
    match h : skipBlank r with
    | ',' :: s =>
      have hs := length_lt_of_skipBlank h
      match members item s with
      | some (ms, ⟨t, ht⟩) => some (m :: ms, ⟨t, by omega⟩)
      | none => none
    | '\x7d' :: s =>
      have hs := length_lt_of_skipBlank h
      some ([m], ⟨s, by omega⟩)
    | _ => none
termination_by cs.length

/-- The array whose items follow. -/
def readArray (item : Reader Json) : Reader Json := fun cs =>
  match h : skipBlank cs with
  | ']' :: rest => some (.array [], ⟨rest, length_lt_of_skipBlank h⟩)
  | _ => (items item cs).map fun (values, rest) => (.array values, rest)

/-- The object whose members follow. -/
def readObject (item : Reader Json) : Reader Json := fun cs =>
  match h : skipBlank cs with
  | '\x7d' :: rest => some (.object [], ⟨rest, length_lt_of_skipBlank h⟩)
  | _ => (members item cs).map fun (ms, rest) => (.object ms, rest)

/-- A value that is nested at most `depth` deep. -/
def value : Nat → Reader Json
  | 0 => scalar
  | depth + 1 => fun cs =>
    match cs with
    | '[' :: rest =>
      (readArray (value depth) rest).map fun (v, ⟨r, h⟩) =>
        (v, ⟨r, by simp only [List.length_cons]; omega⟩)
    | '\x7b' :: rest =>
      (readObject (value depth) rest).map fun (v, ⟨r, h⟩) =>
        (v, ⟨r, by simp only [List.length_cons]; omega⟩)
    | cs => scalar cs

/-- The value that a document writes. -/
def parse? (cs : List Char) : Option Json :=
  match value cs.length (skipBlank cs) with
  | some (v, ⟨rest, _⟩) => if skipBlank rest = [] then some v else none
  | none => none

end Switchyard.Json
