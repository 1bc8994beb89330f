import Switchyard.Bytes
import Switchyard.Text.Blank

/-!
# UUID texts

A user is known by a UUID. It may be written as 32 hexadecimal digits, with hyphens between
groups of 8, 4, 4, 4 and 12 digits, and the hyphenated form also within braces or after
`urn:uuid:`. All letters may have either case. Every accepted text stands for 16 bytes
(`length_of_parse?`).
-/

namespace Switchyard.Uuid

/-- The 16 bytes of 32 digits without hyphens. -/
def parseDigits? (cs : List Char) : Option Bytes :=
  if cs.length = 32 then Hex.decode? cs else none

/-- The 16 bytes of the form with four hyphens. -/
def parseHyphenated? (cs : List Char) : Option Bytes :=
  if cs.length = 36 ∧ cs[8]? = some '-' ∧ cs[13]? = some '-' ∧ cs[18]? = some '-' ∧
      cs[23]? = some '-' then
    parseDigits? (cs.take 8 ++ (cs.drop 9).take 4 ++ (cs.drop 14).take 4 ++ (cs.drop 19).take 4 ++
      cs.drop 24)
  else none

/-- What may stand before and after the hyphenated form. -/
def wrappings : List (List Char × List Char) :=
  [([], []), (['\x7b'], ['\x7d']), ("urn:uuid:".toList, [])]

/-- The text between a wrapping's two parts. The version of the UUID reader that is in use takes
`urn:uuid:` in either case of its letters. -/
def unwrap? (w : List Char × List Char) (cs : List Char) : Option (List Char) :=
  if cs.length = w.1.length + 36 + w.2.length ∧
      Text.sameIgnoringCase w.1 (cs.take w.1.length) ∧ w.2 <:+ cs then
    some ((cs.drop w.1.length).take 36)
  else none

/-- The 16 bytes that an accepted spelling stands for. -/
def parse? (cs : List Char) : Option Bytes :=
  (parseDigits? cs).or <|
    wrappings.findSome? fun w => (unwrap? w cs).bind parseHyphenated?

theorem length_decodeFrom {acc bs : Bytes} {cs : List Char} (h : Hex.decodeFrom acc cs = some bs) :
    2 * bs.length = 2 * acc.length + cs.length := by
  fun_induction Hex.decodeFrom acc cs with
  | case1 acc => cases h; simp
  | case2 => cases h
  | case3 acc hi lo rest b _ ih =>
    have := ih h
    simp only [List.length_cons] at this ⊢
    omega
  | case4 => cases h

theorem length_of_parseDigits? {cs : List Char} {bs : Bytes} (h : parseDigits? cs = some bs) :
    bs.length = 16 := by
  unfold parseDigits? Hex.decode? at h
  split at h
  · have := length_decodeFrom h
    simp only [List.length_nil] at this
    omega
  · cases h

/-- An accepted text stands for 16 bytes. -/
theorem length_of_parse? {cs : List Char} {bs : Bytes} (h : parse? cs = some bs) :
    bs.length = 16 := by
  unfold parse? at h
  rcases Option.or_eq_some_iff.1 h with h | ⟨-, h⟩
  · exact length_of_parseDigits? h
  · obtain ⟨w, -, hw⟩ := List.exists_of_findSome?_eq_some h
    obtain ⟨inner, -, hi⟩ := Option.bind_eq_some_iff.1 hw
    unfold parseHyphenated? at hi
    split at hi
    · exact length_of_parseDigits? hi
    · cases hi

end Switchyard.Uuid
