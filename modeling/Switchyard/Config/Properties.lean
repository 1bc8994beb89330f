import Switchyard.Text.Blank
import Switchyard.Text.Split
import Switchyard.Text.Utf8
import Switchyard.Text.Numeral

/-!
# The number to listen at

The TCP number comes from the setting, or else from the properties file of the server next to which
the program runs, or else is 25565. A properties file has an entry on each line: a key, an equals
sign or a colon, and a value. Lines that begin with `#` or `!` are comments. Only the first entry
with the key counts, whether its value is a number or not.
-/

namespace Switchyard.Properties

/-- The key and the value of a line, without white space around them. -/
def keyValue? (line : List Char) : Option (List Char × List Char) :=
  let line := Text.trim line
  if line.head? = some '#' ∨ line.head? = some '!' then none
  else (Text.splitFirst (fun c => c == '=' || c == ':') line).map fun (key, value) =>
    (Text.trim key, Text.trim value)

/-- The entries of a properties text, in order. -/
def entries (text : List Char) : List (List Char × List Char) :=
  (Text.splitAll (· == '\n') text).filterMap keyValue?

/-- The key of the number to listen at. -/
def listenKey : List Char := "server-port".toList

/-- The number that the first entry with the key gives. -/
def listenTcp? (text : List Char) : Option UInt16 :=
  ((entries text).lookup listenKey).bind Numeral.uint16?

/-- The number when nothing else gives one. -/
def defaultTcp : UInt16 := 25565

/-- The number to listen at, from the setting and the properties file, either of which may be
missing. A file that is not UTF-8 counts as missing. -/
def resolve (setting : Option (List Char)) (file : Option Bytes) : UInt16 :=
  ((setting.bind fun s => Numeral.uint16? (Text.trim s)).or
    ((file.bind Utf8.decode?).bind listenTcp?)).getD defaultTcp

end Switchyard.Properties
