import Switchyard.Text.Blank
import Switchyard.Text.Split
import Switchyard.Bytes

/-!
# Scanning the head of a request

A head arrives in parts, so a scan of the bytes that are there has three outcomes: it finds what it
looks for, it needs more bytes, or the bytes cannot begin a head. A scan never gives back more bytes
than it was given: `Within`.
-/

namespace Switchyard

/-- Why a request cannot be served. -/
inductive RequestFault where
  /-- It is not written as a request. -/
  | malformed
  /-- Its target has too many bytes. -/
  | targetTooLong
  /-- Its header is too large. -/
  | headTooLarge
  deriving DecidableEq, Repr

/-- The bytes that structure a head. -/
abbrev lineFeed : UInt8 := 10

abbrev carriageReturn : UInt8 := 13

abbrev space : UInt8 := 32

abbrev tab : UInt8 := 9

abbrev colon : UInt8 := 58

/-- The text of bytes that each stand for one character. -/
def Bytes.latin (bs : Bytes) : List Char :=
  bs.map fun b => Char.ofNat b.toNat

/-- The outcome of a scan. -/
inductive Scan (α : Type) where
  /-- What was found, and the bytes behind it. -/
  | done (a : α) (rest : Bytes)
  /-- More bytes are needed. -/
  | short
  | bad (e : RequestFault)
  deriving DecidableEq, Repr

namespace Scan

variable {α β : Type}

/-- Goes on behind what was found. -/
def bind (s : Scan α) (f : α → Bytes → Scan β) : Scan β :=
  match s with
  | done a rest => f a rest
  | short => short
  | bad e => bad e

/-- At most `n` bytes stand behind what was found. -/
def Within (n : Nat) : Scan α → Prop
  | done _ rest => rest.length ≤ n
  | short => True
  | bad _ => True

theorem Within.mono {n m : Nat} {s : Scan α} (h : s.Within n) (hle : n ≤ m) : s.Within m := by
  cases s with
  | done a rest => exact Nat.le_trans h hle
  | short => trivial
  | bad e => trivial

theorem Within.bind {n m : Nat} {s : Scan α} {f : α → Bytes → Scan β} (h : s.Within n)
    (hf : ∀ a rest, rest.length ≤ n → (f a rest).Within m) : (s.bind f).Within m := by
  cases s with
  | done a rest => exact hf a rest h
  | short => trivial
  | bad e => trivial

end Scan

namespace Http

theorem length_dropWhile_le (p : UInt8 → Bool) (bs : Bytes) :
    (bs.dropWhile p).length ≤ bs.length :=
  (List.dropWhile_suffix p).length_le

/-! ### Classes of bytes -/

/-- The bytes of which names and methods consist. -/
def isTokenByte (b : UInt8) : Bool :=
  let c := Char.ofNat b.toNat
  c.isAlphanum || "!#$%&\x27*+-.^_\x60|~".toList.contains c

/-- The bytes of which a target consists. -/
def isTargetByte (b : UInt8) : Bool :=
  0x21 ≤ b && b != 0x7F

/-- The bytes of which the value of a field consists. -/
def isValueByte (b : UInt8) : Bool :=
  b == tab || (0x20 ≤ b && b != 0x7F)

/-- The blanks around values. -/
def isBlankByte (b : UInt8) : Bool :=
  b == space || b == tab

/-- The bytes that stand for themselves when a value is read as text. -/
def isVisibleByte (b : UInt8) : Bool :=
  b == tab || (0x20 ≤ b && b < 0x7F)

/-! ### Parts of a head -/

/-- Skips the empty lines that may stand before a request. -/
def skipEmptyLines : Bytes → Scan Unit
  | [] => .short
  | [b] => if b = lineFeed ∨ b = carriageReturn then .short else .done () [b]
  | b :: c :: bs =>
    if b = lineFeed then skipEmptyLines (c :: bs)
    else if b = carriageReturn then
      if c = lineFeed then skipEmptyLines bs else .bad .malformed
    else .done () (b :: c :: bs)

/-- Reads a word of the class `p` up to the byte `stop`, which it takes with it. -/
def word (p : UInt8 → Bool) (stop : UInt8) (bs : Bytes) : Scan Bytes :=
  let w := bs.takeWhile p
  match bs.dropWhile p with
  | [] => .short
  | b :: rest => if b = stop ∧ w ≠ [] then .done w rest else .bad .malformed

/-- Reads the end of a line. -/
def newline : Bytes → Scan Unit
  | [] => .short
  | b :: bs =>
    if b = lineFeed then .done () bs
    else if b = carriageReturn then
      match bs with
      | [] => .short
      | c :: bs => if c = lineFeed then .done () bs else .bad .malformed
    else .bad .malformed

/-! ### Nothing is given back twice -/

theorem skipEmptyLines_within (bs : Bytes) : (skipEmptyLines bs).Within bs.length := by
  fun_induction skipEmptyLines bs with
  | case1 => trivial
  | case2 => trivial
  | case3 b h => exact Nat.le_refl _
  | case4 c bs ih => exact ih.mono (Nat.le_succ _)
  | case5 bs _ ih => exact ih.mono (by simp only [List.length_cons]; omega)
  | case6 => trivial
  | case7 b c bs => exact Nat.le_refl _

theorem word_within (p : UInt8 → Bool) (stop : UInt8) (bs : Bytes) :
    (word p stop bs).Within (bs.length - 1) := by
  unfold word
  dsimp only
  split
  · trivial
  · next b rest h =>
    split
    · have hle := length_dropWhile_le p bs
      rw [h] at hle
      simp only [List.length_cons] at hle
      exact Nat.le_sub_one_of_lt hle
    · trivial

theorem newline_within (bs : Bytes) : (newline bs).Within (bs.length - 1) := by
  unfold newline
  repeat' split
  all_goals first
    | trivial
    | simp only [Scan.Within, List.length_cons]; omega

end Http

end Switchyard
