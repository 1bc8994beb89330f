import Switchyard.Config.Setting
import Switchyard.Text.Split

/-!
# Reading the command line

An option takes one value. The value stands behind an equals sign, or is the next argument if that
does not begin with a hyphen; it follows the letter of a short option directly as well. A value in
an argument of its own is looked at only when the next option or the end comes, so a later argument
that is no option at all is reported first. The result is the list of assignments, last first, with
no setting twice (`keys_nodup`).
-/

namespace Switchyard

/-- What stops the reading of a command line. -/
inductive UsageError where
  /-- An argument is no option and no value of one. -/
  | unknownArgument
  /-- An option has no value. -/
  | missingValue
  /-- A value does not suit its setting. -/
  | unsuitableValue
  /-- A value is given to an option that takes none. -/
  | unwantedValue
  /-- An option occurs twice. -/
  | repeated
  /-- The user asks for help. -/
  | help
  /-- The user asks for the version. -/
  | version
  deriving DecidableEq, Repr

namespace CommandLine

/-- Values for settings, last given first. -/
abbrev Assignments := List (Setting × List Char)

/-- The value for a setting. -/
def Assignments.get? (given : Assignments) (s : Setting) : Option (List Char) :=
  given.lookup s

/-- How an argument is written. -/
inductive Argument where
  /-- Two hyphens. -/
  | separator
  /-- Two hyphens, a name, and perhaps a value behind an equals sign. -/
  | long (name : List Char) (value : Option (List Char))
  /-- One hyphen, a letter, and more. -/
  | short (letter : Char) (more : List Char)
  /-- Anything else. -/
  | plain (text : List Char)

/-- Tells the ways of writing an argument apart. -/
def Argument.ofText : List Char → Argument
  | ['-', '-'] => .separator
  | '-' :: '-' :: cs =>
    match Text.splitFirst (· == '=') cs with
    | some (name, value) => .long name (some value)
    | none => .long cs none
  | '-' :: c :: cs => .short c cs
  | cs => .plain cs

/-- An option whose value is not yet looked at, and the value if it has come. -/
abbrev Pending := Option (Setting × Option (List Char))

/-- Gives a value to a setting that has none. -/
def assign (given : Assignments) (s : Setting) (value : List Char) :
    Except UsageError Assignments :=
  if (given.get? s).isSome then .error .repeated
  else if s.accepts value then .ok ((s, value) :: given)
  else .error .unsuitableValue

/-- Looks at the value that was put off. -/
def settle (given : Assignments) : Pending → Except UsageError Assignments
  | none => .ok given
  | some (_, none) => .error .missingValue
  | some (s, some value) => assign given s value

/-- What an option asks for. -/
inductive Request where
  /-- A value for a setting. -/
  | set (s : Setting)
  /-- A text, instead of a run. -/
  | show (what : UsageError)

/-- The meaning of a long option. -/
def Request.ofName? (name : List Char) : Option Request :=
  if name = "help".toList then some (.show .help)
  else if name = "version".toList then some (.show .version)
  else (Setting.ofOptionName? name).map .set

/-- The meaning of a short option. -/
def Request.ofLetter? (letter : Char) : Option Request :=
  if letter = 'h' then some (.show .help)
  else if letter = 'V' then some (.show .version)
  else (Setting.ofLetter? letter).map .set

/-- The value that follows a letter directly; an equals sign may stand between. -/
def attached : List Char → Option (List Char)
  | [] => none
  | '=' :: cs => some cs
  | cs => some cs

/-- Reads the arguments that are left, after the assignments in `given`. -/
def readFrom (given : Assignments) (pending : Pending) :
    List (List Char) → Except UsageError Assignments
  | [] => settle given pending
  | arg :: args =>
    match Argument.ofText arg with
    | .separator => if args = [] then settle given pending else .error .unknownArgument
    | .plain text =>
      match pending with
      | some (s, none) => readFrom given (some (s, some text)) args
      | _ => .error .unknownArgument
    | .long name value =>
      match Request.ofName? name, value with
      | none, _ => .error .unknownArgument
      | some (.show _), some _ => .error .unwantedValue
      | some (.show what), none => do
        let _ ← settle given pending
        .error what
      | some (.set s), some value => do
        let given ← settle given pending
        let given ← assign given s value
        readFrom given none args
      | some (.set s), none => do
        let given ← settle given pending
        readFrom given (some (s, none)) args
    | .short letter more =>
      match Request.ofLetter? letter, attached more with
      | none, _ => .error .unknownArgument
      | some (.show what), _ => do
        let _ ← settle given pending
        .error what
      | some (.set s), some value => do
        let given ← settle given pending
        let given ← assign given s value
        readFrom given none args
      | some (.set s), none => do
        let given ← settle given pending
        readFrom given (some (s, none)) args

/-- The assignments that a command line makes. -/
def read (args : List (List Char)) : Except UsageError Assignments :=
  readFrom [] none args

end CommandLine

end Switchyard
