import Switchyard.Log.Directive

/-!
# Filters of the log

A filter is a list of directives, and the one that says most closely which lines it concerns counts
for a line. A filter that is not well formed counts as missing, and then everything of the program from
`info` on is shown; one that tears characters apart cannot be used at all.
-/

namespace Switchyard

/-- Which lines are shown. -/
structure LogFilter where
  directives : List Directive
  deriving DecidableEq, Repr

namespace LogFilter

/-- The filter when none is given. -/
def default : LogFilter :=
  ⟨[{ Directive.all with target := some LogLine.program, threshold := LogLevel.info.rank }]⟩

/-- The filter that a text without directives describes. -/
def errors : LogFilter :=
  ⟨[{ Directive.all with threshold := LogLevel.error.rank }]⟩

/-- The filter that a text describes: directives between commas. The first fault counts. -/
def ofText? (cs : List Char) : Option LogFilter :=
  match ((Text.splitAll (· == ',') cs).filter (· ≠ [])).mapM Directive.ofText with
  | .error .malformed => some default
  | .error .torn => none
  | .ok [] => some errors
  | .ok ds => some ⟨ds⟩

/-- The filter is given as a text, or not at all. -/
def read? : Option (List Char) → Option LogFilter
  | some cs => ofText? cs
  | none => some default

/-- The highest rank that is shown of a source. -/
def threshold (f : LogFilter) (source : List Char) : Nat :=
  ((Directive.closest (f.directives.filter (Directive.concerns source))).map
    Directive.threshold).getD 0

/-- A line is shown. -/
def shows (f : LogFilter) (l : LogLine) : Bool :=
  l.level.rank ≤ f.threshold l.source

/-- The lines that are shown. -/
def apply (f : LogFilter) (lines : List LogLine) : List LogLine :=
  lines.filter f.shows

end LogFilter

end Switchyard
