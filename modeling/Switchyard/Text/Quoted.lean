import Switchyard.Text.Printable

/-!
# Quoted texts

A text in messages stands between double quotes. A quote, a backslash and the usual control
characters are written with a backslash; any other character that cannot be shown is written as its
code point in hexadecimal between braces.
-/

namespace Switchyard.Text

/-- A character as it stands in a quoted text. -/
def quoteChar (c : Char) : List Char :=
  if c = '\x00' then ['\\', '0']
  else if c = '\t' then ['\\', 't']
  else if c = '\n' then ['\\', 'n']
  else if c = '\r' then ['\\', 'r']
  else if c = '"' ∨ c = '\\' then ['\\', c]
  else if isPrintable c then [c]
  else ['\\', 'u', '\x7b'] ++ Nat.toDigits 16 c.toNat ++ ['\x7d']

/-- The text between double quotes. -/
def quoted (cs : List Char) : List Char :=
  '"' :: cs.flatMap quoteChar ++ ['"']

end Switchyard.Text
