/-!
# Prefix codes

A canonical prefix code is given by the code length of each symbol (RFC 1951, section 3.2.2): shorter
codes come first, and codes of one length follow the order of their symbols. `CodeTree.ofLengths`
lays the codes out as a tree from left to right. Lengths fill a code when no further code would fit
(`isComplete`); a code may stay unfilled only where a single bit tells all its symbols.
-/

namespace Switchyard.Deflate

/-- A prefix code as a tree: the left branch is for a zero bit, the right one for a one. -/
inductive CodeTree where
  /-- No code leads here. -/
  | empty
  /-- The code of a symbol ends here. -/
  | leaf (symbol : Nat)
  | node (zero one : CodeTree)
  deriving DecidableEq, Repr

namespace CodeTree

/-- Where a bit leads. -/
def child : CodeTree → Bool → CodeTree
  | node zero _, false => zero
  | node _ one, true => one
  | _, _ => empty

/-- The greatest length of a code. -/
def maxLength : Nat := 15

/-- Pairs of length and symbol for the symbols that have a code. -/
def used (lengths : List Nat) : List (Nat × Nat) :=
  lengths.zipIdx.filter fun (l, _) => l ≠ 0

/-- The used symbols in the order of their codes. -/
def ordered (lengths : List Nat) : List (Nat × Nat) :=
  (List.range' 1 maxLength).flatMap fun l => (used lengths).filter fun p => p.1 == l

/-- Takes symbols for the subtree at a depth, from its left end on, and gives those that are left.
The subtree has at most `height` levels. -/
def fill : (height depth : Nat) → List (Nat × Nat) → CodeTree × List (Nat × Nat)
  | _, _, [] => (empty, [])
  | 0, depth, (l, s) :: rest => if l = depth then (leaf s, rest) else (empty, (l, s) :: rest)
  | height + 1, depth, (l, s) :: rest =>
    if l = depth then (leaf s, rest)
    else
      let (zero, rest) := fill height (depth + 1) ((l, s) :: rest)
      let (one, rest) := fill height (depth + 1) rest
      (node zero one, rest)

/-- The tree of the canonical code with these lengths. -/
def ofLengths (lengths : List Nat) : CodeTree :=
  (fill maxLength 0 (ordered lengths)).1

end CodeTree

/-- How much of the space of codes the lengths take, in units of the longest codes. -/
def taken (lengths : List Nat) : Nat :=
  (CodeTree.used lengths).foldl (fun n p => n + 1 <<< (CodeTree.maxLength - p.1)) 0

/-- The codes take all the space there is, and no more. -/
def isComplete (lengths : List Nat) : Bool :=
  taken lengths == 1 <<< CodeTree.maxLength

/-- The tree of a code that is complete. -/
def completeTree? (lengths : List Nat) : Option CodeTree :=
  if isComplete lengths then some (.ofLengths lengths) else none

/-- The codes are no longer than a bit, so there is at most one of them unless they are complete. -/
def isShort (lengths : List Nat) : Bool :=
  lengths.all (· ≤ 1) && taken lengths ≤ 1 <<< CodeTree.maxLength

/-- The tree of a code that is complete, has no symbols, or has one symbol with a code of one bit. -/
def tree? (lengths : List Nat) : Option CodeTree :=
  if isComplete lengths ∨ isShort lengths then some (.ofLengths lengths) else none

/-- The two codes of a block of compressed data. -/
structure Codes where
  /-- For literals, lengths of copies, and the end of the block. -/
  literals : CodeTree
  /-- For distances of copies. -/
  distances : CodeTree
  deriving DecidableEq, Repr

/-- The codes of blocks that bring none. -/
def Codes.fixed : Codes where
  literals := .ofLengths (List.replicate 144 8 ++ List.replicate 112 9 ++ List.replicate 24 7 ++
    List.replicate 8 8)
  distances := .ofLengths (List.replicate 32 5)

/-- The codes with these lengths. -/
def Codes.ofLengths? (literals distances : List Nat) : Option Codes := do
  return ⟨← tree? literals, ← tree? distances⟩

end Switchyard.Deflate
