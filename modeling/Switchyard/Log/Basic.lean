import Switchyard.Bytes

/-!
# The log

A line of the log has a level, the part of the program that it comes from, and a text. In what is
shown, characters that a terminal could take for a command are written by their code, so that no text
from outside can direct it.
-/

namespace Switchyard

/-- How weighty a line is. -/
inductive LogLevel where
  | error
  | warn
  | info
  | debug
  | trace
  deriving DecidableEq, Repr

namespace LogLevel

/-- The weightiest level has rank one. -/
def rank : LogLevel → Nat
  | error => 1
  | warn => 2
  | info => 3
  | debug => 4
  | trace => 5

/-- The name of a level in a line. -/
def name : LogLevel → String
  | error => "ERROR"
  | warn => "WARN"
  | info => "INFO"
  | debug => "DEBUG"
  | trace => "TRACE"

end LogLevel

/-- A line of the log. -/
structure LogLine where
  level : LogLevel
  /-- The part of the program that wrote it. -/
  source : List Char
  text : List Char
  deriving DecidableEq, Repr

namespace LogLine

/-- The name of the program, under which it writes most lines. -/
def program : List Char := "muxtun".toList

/-- The only field of a line is its text; it has this name. -/
def textField : List Char := "message".toList

/-- A character of the text as it is shown. Blanks other than the form feed stand as they are. -/
def shownChar (c : Char) : List Char :=
  if ['\x07', '\x08', '\x0c', '\x1b', '\x7f'].contains c then
    '\\' :: 'x' :: Hex.ofByte (UInt8.ofNat c.toNat)
  else if 0x80 ≤ c.toNat ∧ c.toNat ≤ 0x9F then
    ['\\', 'u', '\x7b'] ++ Hex.ofByte (UInt8.ofNat c.toNat) ++ ['\x7d']
  else [c]

/-- A line as it is shown, without its time. -/
def shown (l : LogLine) : List Char :=
  l.level.name.toList ++ ' ' :: l.source ++ ':' :: ' ' :: l.text.flatMap shownChar

def info (text : List Char) : LogLine := ⟨.info, program, text⟩

def warn (text : List Char) : LogLine := ⟨.warn, program, text⟩

end LogLine

end Switchyard
