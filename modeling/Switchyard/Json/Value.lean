import Switchyard.Bytes

/-!
# JSON values

A JSON document as far as its meaning goes: numbers keep their value only if they are written as
integers, and strings keep their text only if their escapes spell one. Members keep their order and
may repeat.
-/

namespace Switchyard

/-- A part of a written string: a character, or a 16-bit unit behind an escape. -/
inductive StringPart where
  | char (c : Char)
  | unit (n : Nat)
  deriving DecidableEq, Repr

/-- The text of the parts. Two units that are surrogates of one character have to come together;
no other unit may be a surrogate. -/
def StringPart.text? : List StringPart → Option (List Char)
  | [] => some []
  | .char c :: parts => (text? parts).map (c :: ·)
  | .unit hi :: .unit lo :: parts =>
    if 0xD800 ≤ hi ∧ hi < 0xDC00 then
      if 0xDC00 ≤ lo ∧ lo < 0xE000 then
        (text? parts).map (Char.ofNat (0x10000 + (hi - 0xD800) * 0x400 + (lo - 0xDC00)) :: ·)
      else none
    else if 0xDC00 ≤ hi ∧ hi < 0xE000 then none
    else (text? (.unit lo :: parts)).map (Char.ofNat hi :: ·)
  | .unit n :: parts =>
    if 0xD800 ≤ n ∧ n < 0xE000 then none else (text? parts).map (Char.ofNat n :: ·)

/-- A JSON value. -/
inductive Json where
  | null
  | bool (b : Bool)
  /-- A number, with its value if it is written as an integer other than minus zero. -/
  | number (value : Option Int)
  /-- A string, with its text if it has one. -/
  | string (text : Option (List Char))
  | array (items : List Json)
  | object (members : List (Option (List Char) × Json))

namespace Json

/-- The integer from `lo` to `hi` that a value is. -/
def integer? (lo hi : Int) : Json → Option Int
  | number (some n) => if lo ≤ n ∧ n ≤ hi then some n else none
  | _ => none

/-- The text that a value is. -/
def text? : Json → Option (List Char)
  | string text => text
  | _ => none

/-- The keys of an object have texts. -/
def keysReadable (members : List (Option (List Char) × Json)) : Bool :=
  members.all fun m => m.1.isSome

/-- The members with a key, in order. -/
def valuesAt (key : List Char) (members : List (Option (List Char) × Json)) : List Json :=
  members.filterMap fun m => if m.1 = some key then some m.2 else none

/-- The only member with a key, if there is one; no answer if there are more. -/
def single? (key : List Char) (members : List (Option (List Char) × Json)) :
    Option (Option Json) :=
  match valuesAt key members with
  | [] => some none
  | [value] => some (some value)
  | _ => none

end Json

end Switchyard
