/-!
# White space

The characters with the Unicode property `White_Space`, and a text without them at its ends.
-/

namespace Switchyard.Text

/-- Has the Unicode property `White_Space`. -/
def isBlank (c : Char) : Bool :=
  let n := c.toNat
  (0x09 ≤ n && n ≤ 0x0D) || n == 0x20 || n == 0x85 || n == 0xA0 || n == 0x1680 ||
    (0x2000 ≤ n && n ≤ 0x200A) || n == 0x2028 || n == 0x2029 || n == 0x202F || n == 0x205F ||
    n == 0x3000

/-- The text without the characters of the class `p` at either end. -/
def trimBoth (p : Char → Bool) (cs : List Char) : List Char :=
  ((cs.dropWhile p).reverse.dropWhile p).reverse

/-- The text without white space at either end. -/
def trim (cs : List Char) : List Char :=
  trimBoth isBlank cs

@[simp] theorem trim_nil : trim [] = [] := rfl

/-- ASCII letters in lower case; every other character is kept. -/
def lower (cs : List Char) : List Char :=
  cs.map Char.toLower

/-- Equal up to the case of ASCII letters. -/
def sameIgnoringCase (xs ys : List Char) : Bool :=
  lower xs == lower ys

end Switchyard.Text
