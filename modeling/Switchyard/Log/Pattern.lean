import Switchyard.Bytes
import Switchyard.Text.Alphanumeric
import Switchyard.Text.Blank

/-!
# Patterns in directives

A directive can ask for fields with a value, which is written as a number or as a regular expression.
No value is ever compared here, so all that counts is whether a text can be read as one of them:
`isValue`. A text inside a directive has no comma, equals sign or closing brace, and so no
repetition that is counted; boundaries of words are not supported.
-/

namespace Switchyard.LogPattern

/-! ### Numbers -/

/-- Nothing, or an exponent. -/
def isExponent : List Char → Bool
  | [] => true
  | e :: cs =>
    let digits :=
      match cs with
      | '+' :: ds => ds
      | '-' :: ds => ds
      | ds => ds
    (e == 'e' || e == 'E') && digits ≠ [] && digits.all Char.isDigit

/-- Digits, perhaps with a point and an exponent. -/
def isDecimal (cs : List Char) : Bool :=
  let whole := cs.takeWhile Char.isDigit
  match cs.dropWhile Char.isDigit with
  | '.' :: rest =>
    (whole ≠ [] || (rest.takeWhile Char.isDigit) ≠ []) && isExponent (rest.dropWhile Char.isDigit)
  | rest => whole ≠ [] && isExponent rest

/-- A number, with or without a sign. -/
def isNumber (cs : List Char) : Bool :=
  let unsigned :=
    match cs with
    | '+' :: ds => ds
    | '-' :: ds => ds
    | ds => ds
  isDecimal unsigned ||
    ["inf", "infinity", "nan"].any fun word => Text.sameIgnoringCase unsigned word.toList

/-! ### Parts of an expression -/

/-- What an escape stands for. -/
inductive Element where
  | char (c : Char)
  /-- One of several characters. -/
  | set
  /-- A place between characters. -/
  | place
  deriving DecidableEq, Repr

/-- Reads a character written as `digits` hexadecimal digits. -/
def hexEscape? (digits : Nat) (cs : List Char) : Option (Element × List Char) := do
  if cs.length < digits then none
  let n ← (cs.take digits).foldlM (fun n c => (Hex.value? c).map (16 * n + ·)) 0
  if n.isValidChar then return (.char (Char.ofNat n), cs.drop digits) else none

/-- The control characters that a letter can stand for. -/
def controls : List (Char × Char) :=
  [('a', '\x07'), ('f', '\x0c'), ('t', '\t'), ('n', '\n'), ('r', '\r'), ('v', '\x0b')]

/-- Reads an escape behind its backslash. -/
def escape? : List Char → Option (Element × List Char)
  | [] => none
  | c :: cs =>
    if c = 'x' then hexEscape? 2 cs
    else if c = 'u' then hexEscape? 4 cs
    else if c = 'U' then hexEscape? 8 cs
    else if "pP".toList.contains c then
      match cs with
      | [] => none
      | name :: cs => if "LMNPSZC".toList.contains name.toUpper then some (.set, cs) else none
    else if "dswDSW".toList.contains c then some (.set, cs)
    else if "Az".toList.contains c then some (.place, cs)
    else if c.toNat < 128 ∧ ¬ c.isAlphanum ∧ c ≠ '<' ∧ c ≠ '>' then some (.char c, cs)
    else (controls.lookup c).map fun control => (.char control, cs)

/-- Reads a character or an escape. -/
def element? : List Char → Option (Element × List Char)
  | '\\' :: cs => escape? cs
  | c :: cs => some (.char c, cs)
  | [] => none

/-- Skips an element of a set, or a range of characters, which has to be in order. -/
def skipRange (cs : List Char) : Option (List Char) := do
  let (lo, rest) ← element? cs
  let single := if lo = .place then none else some rest
  match rest with
  | '-' :: c :: rest =>
    if c = ']' ∨ c = '-' then single
    else
      match lo, ← element? (c :: rest) with
      | .char lo, (.char hi, rest) => if lo ≤ hi then some rest else none
      | _, _ => none
  | _ => single

/-- Skips what may stand at the start of a set: a negation, and characters that end or divide it
elsewhere. -/
def skipSetStart (cs : List Char) : List Char :=
  let cs :=
    match cs with
    | '^' :: rest => rest
    | cs => cs
  match cs with
  | ']' :: rest => rest
  | cs => cs.dropWhile (· == '-')

/-- Skips a set behind its opening bracket, when `depth` more sets are open around it. -/
def skipSet : (fuel depth : Nat) → List Char → Option (List Char)
  | 0, _, _ => none
  | _, _, [] => none
  | fuel + 1, depth, '[' :: cs => skipSet fuel (depth + 1) (skipSetStart cs)
  | _ + 1, 0, ']' :: cs => some cs
  | fuel + 1, depth + 1, ']' :: cs => skipSet fuel depth cs
  | fuel + 1, depth, '&' :: '&' :: cs => skipSet fuel depth cs
  | fuel + 1, depth, '-' :: '-' :: cs => skipSet fuel depth cs
  | fuel + 1, depth, '~' :: '~' :: cs => skipSet fuel depth cs
  | fuel + 1, depth, cs =>
    match skipRange cs with
    | some rest => skipSet fuel depth rest
    | none => none

/-! ### Groups -/

/-- What the start of a group comes to. -/
inductive GroupStart where
  | opens
  /-- The group gets this name. -/
  | names (name : List Char)
  /-- There is no group, only flags for what follows. -/
  | flags
  deriving DecidableEq, Repr

/-- A name that a group may have. -/
def isGroupName : List Char → Bool
  | [] => false
  | c :: cs =>
    (c == '_' || (Text.isAlphanumeric c && !c.isDigit)) &&
      cs.all fun c => Text.isAlphanumeric c || "_.[]".toList.contains c

/-- Reads a name and the bracket behind it. -/
def groupName? (cs : List Char) : Option (GroupStart × List Char) :=
  let name := cs.takeWhile (· != '>')
  match cs.dropWhile (· != '>') with
  | _ :: rest => if isGroupName name then some (.names name, rest) else none
  | [] => none

/-- Flags that can be switched on, and off behind a minus sign. -/
def areFlags (cs : List Char) : Bool :=
  cs.all (fun c => "imsUuRx-".toList.contains c) && decide cs.Nodup && cs.getLast? != some '-'

/-- Reads flags up to the mark behind them. -/
def groupFlags? (cs : List Char) : Option (GroupStart × List Char) :=
  let flags := cs.takeWhile fun c => c != ':' && c != ')'
  match cs.dropWhile fun c => c != ':' && c != ')' with
  | ':' :: rest => if areFlags flags then some (.opens, rest) else none
  | ')' :: rest => if areFlags flags && flags ≠ [] then some (.flags, rest) else none
  | _ => none

/-- Reads the start of a group behind its parenthesis. -/
def groupStart? : List Char → Option (GroupStart × List Char)
  | '?' :: 'P' :: '<' :: cs => groupName? cs
  | '?' :: '<' :: cs => groupName? cs
  | '?' :: cs => groupFlags? cs
  | cs => some (.opens, cs)

/-! ### Expressions -/

/-- Where the reading of an expression is. -/
structure Progress where
  /-- How many groups are open. -/
  groups : Nat
  /-- The names of groups so far. -/
  names : List (List Char)
  /-- What stands before can be repeated. -/
  repeatable : Bool

namespace Progress

/-- The progress behind the start of a group, whose name must be new. -/
def enter (p : Progress) : GroupStart → Option Progress
  | .opens => some { p with groups := p.groups + 1, repeatable := false }
  | .names name =>
    if name ∈ p.names then none
    else some ⟨p.groups + 1, name :: p.names, false⟩
  | .flags => some { p with repeatable := false }

/-- The progress behind the end of a group. -/
def leave (p : Progress) : Option Progress :=
  match p.groups with
  | 0 => none
  | n + 1 => some { p with groups := n, repeatable := true }

/-- Reads the next part of an expression. -/
def next (p : Progress) (c : Char) (cs : List Char) : Option (Progress × List Char) := do
  let plain := { p with repeatable := true }
  if c = '(' then
    let (start, rest) ← groupStart? cs
    return (← p.enter start, rest)
  else if c = ')' then return (← p.leave, cs)
  else if c = '|' then return ({ p with repeatable := false }, cs)
  else if "*+?".toList.contains c then if p.repeatable then return (p, cs) else none
  else if c = '\x7b' then none
  else if c = '[' then return (plain, ← skipSet cs.length 0 (skipSetStart cs))
  else if c = '\\' then return (plain, (← escape? cs).2)
  else return (plain, cs)

end Progress

/-- The rest of an expression is well formed. -/
def isExpressionFrom : (fuel : Nat) → Progress → List Char → Bool
  | _, p, [] => p.groups == 0
  | 0, _, _ => false
  | fuel + 1, p, c :: cs =>
    match p.next c cs with
    | some (p, rest) => isExpressionFrom fuel p rest
    | none => false

/-- A well-formed expression. -/
def isExpression (cs : List Char) : Bool :=
  isExpressionFrom cs.length ⟨0, [], false⟩ cs

/-- A number or an expression. -/
def isValue (cs : List Char) : Bool :=
  isNumber cs || isExpression cs

end Switchyard.LogPattern
