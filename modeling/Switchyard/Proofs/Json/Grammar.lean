import Switchyard.Json.Value

/-!
# The grammar of JSON

Which texts write which values, after RFC 8259. A text may stand for a value in many ways: white
space may stand around every value and every key, and the characters of a string may be escaped.
-/

namespace Switchyard

/-- The parts of a string spell a text: each character is written as it is, or is the unit behind an
escape, or a pair of units that are its surrogates. -/
inductive StringPart.Spells : List StringPart → List Char → Prop
  | nil : Spells [] []
  | char {ps : List StringPart} {cs : List Char} (c : Char) (behind : Spells ps cs) :
    Spells (.char c :: ps) (c :: cs)
  | unit {ps : List StringPart} {cs : List Char} (c : Char) (hc : c.toNat < 0x10000)
    (behind : Spells ps cs) : Spells (.unit c.toNat :: ps) (c :: cs)
  | pair {ps : List StringPart} {cs : List Char} (c : Char) {hi lo : Nat} (hhi : hi < 0x400)
    (hlo : lo < 0x400) (hc : c.toNat = 0x10000 + hi * 0x400 + lo) (behind : Spells ps cs) :
    Spells (.unit (0xD800 + hi) :: .unit (0xDC00 + lo) :: ps) (c :: cs)

namespace Json

/-! ### White space -/

/-- White space, or nothing. -/
def Blank (cs : List Char) : Prop :=
  ∀ c ∈ cs, c = ' ' ∨ c = '\t' ∨ c = '\n' ∨ c = '\r'

/-- What is in `W`, with white space around it. -/
inductive Padded {α : Type} (W : List Char → α → Prop) : List Char → α → Prop
  | mk {before w behind : List Char} {x : α} (hbefore : Blank before) (hw : W w x)
    (hbehind : Blank behind) : Padded W (before ++ (w ++ behind)) x

/-! ### Strings -/

/-- The characters that may stand behind a backslash, and those they stand for. -/
def escapes : List (Char × Char) :=
  [('"', '"'), ('\\', '\\'), ('/', '/'), ('b', '\x08'), ('f', '\x0c'), ('n', '\n'), ('r', '\r'),
    ('t', '\t')]

/-- One part of a string. -/
inductive Part : List Char → StringPart → Prop
  | plain {c : Char} (hc : 0x20 ≤ c.toNat) (hquote : c ≠ '"') (hbackslash : c ≠ '\\') :
    Part [c] (.char c)
  | escape {c e : Char} (hc : (c, e) ∈ escapes) : Part ['\\', c] (.char e)
  | unit {a b c d : Char} {k l m n : Nat} (ha : Hex.value? a = some k) (hb : Hex.value? b = some l)
    (hc : Hex.value? c = some m) (hd : Hex.value? d = some n) :
    Part ['\\', 'u', a, b, c, d] (.unit (((k * 16 + l) * 16 + m) * 16 + n))

/-- Parts of a string, one behind the other. -/
inductive Parts : List Char → List StringPart → Prop
  | nil : Parts [] []
  | cons {w ws : List Char} {p : StringPart} {ps : List StringPart} (hw : Part w p)
    (hws : Parts ws ps) : Parts (w ++ ws) (p :: ps)

/-- A string in its quotes, with its text if it has one. -/
inductive Quoted : List Char → Option (List Char) → Prop
  | text {w text : List Char} {ps : List StringPart} (hw : Parts w ps)
    (htext : StringPart.Spells ps text) : Quoted ('"' :: (w ++ ['"'])) (some text)
  | noText {w : List Char} {ps : List StringPart} (hw : Parts w ps)
    (htext : ∀ text, ¬ StringPart.Spells ps text) : Quoted ('"' :: (w ++ ['"'])) none

/-! ### Numbers -/

/-- A run of digits. -/
def Digits (ds : List Char) : Prop :=
  ds ≠ [] ∧ ∀ c ∈ ds, c.isDigit = true

/-- Digits of an integer: no zero stands before another digit. -/
def Integer (ds : List Char) : Prop :=
  Digits ds ∧ ∀ behind, ds = '0' :: behind → behind = []

/-- A fraction, or nothing. -/
def Fraction (cs : List Char) : Prop :=
  cs = [] ∨ ∃ ds, cs = '.' :: ds ∧ Digits ds

/-- An exponent, or nothing. -/
def Exponent (cs : List Char) : Prop :=
  cs = [] ∨ ∃ c sign ds, cs = c :: (sign ++ ds) ∧ (c = 'e' ∨ c = 'E') ∧
    (sign = [] ∨ sign = ['+'] ∨ sign = ['-']) ∧ Digits ds

/-- A number. It has a value if it is the decimal of an integer, which then is the value; minus zero is
no such decimal, nor is anything with a fraction or an exponent. -/
def Number (cs : List Char) (value : Option Int) : Prop :=
  (∃ sign ds fraction exponent, cs = sign ++ (ds ++ (fraction ++ exponent)) ∧
    (sign = [] ∨ sign = ['-']) ∧ Integer ds ∧ Fraction fraction ∧ Exponent exponent) ∧
  ∀ n, value = some n ↔ cs = (toString n).toList

/-! ### Values -/

/-- The text writes a value without parts. -/
inductive Scalar : List Char → Json → Prop
  | nullWord : Scalar "null".toList .null
  | trueWord : Scalar "true".toList (.bool true)
  | falseWord : Scalar "false".toList (.bool false)
  | number {w : List Char} {value : Option Int} (hw : Number w value) : Scalar w (.number value)
  | string {w : List Char} {text : Option (List Char)} (hw : Quoted w text) : Scalar w (.string text)

/-- One or more of what is in `W`, with commas between them. -/
inductive Separated {α : Type} (W : List Char → α → Prop) : List Char → List α → Prop
  | last {w : List Char} {x : α} (hw : W w x) : Separated W w [x]
  | more {w ws : List Char} {x : α} {xs : List α} (hw : W w x) (hws : Separated W ws xs) :
    Separated W (w ++ ',' :: ws) (x :: xs)

/-- The same in brackets, or brackets around nothing. -/
inductive Bracketed {α : Type} (W : List Char → α → Prop) (opening closing : Char) :
    List Char → List α → Prop
  | none {w : List Char} (hw : Blank w) : Bracketed W opening closing (opening :: (w ++ [closing])) []
  | some {w : List Char} {xs : List α} (hw : Separated W w xs) :
    Bracketed W opening closing (opening :: (w ++ [closing])) xs

/-- A key, a colon and a value. -/
inductive Member (W : List Char → Json → Prop) : List Char → Option (List Char) × Json → Prop
  | mk {w ws : List Char} {key : Option (List Char)} {v : Json} (hw : Padded Quoted w key)
    (hws : Padded W ws v) : Member W (w ++ ':' :: ws) (key, v)

/-- The text writes the value. -/
inductive Writes : List Char → Json → Prop
  | scalar {w : List Char} {v : Json} (hw : Scalar w v) : Writes w v
  | array {w : List Char} {vs : List Json} (hw : Bracketed (Padded Writes) '[' ']' w vs) :
    Writes w (.array vs)
  | object {w : List Char} {ms : List (Option (List Char) × Json)}
    (hw : Bracketed (Member Writes) '\x7b' '\x7d' w ms) : Writes w (.object ms)

/-- A document: a value with white space around it. -/
def Document : List Char → Json → Prop :=
  Padded Writes

end Json

end Switchyard
