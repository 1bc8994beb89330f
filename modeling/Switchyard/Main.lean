import Switchyard.Connection.Basic
import Switchyard.Connection.Wire
import Switchyard.Lookup.NameAnswer
import Switchyard.Lookup.Provider
import Switchyard.Startup

/-!
# The program

The program reads its settings, writes its log to the standard error stream, and serves one
connection, whose client stands at the standard input and output streams. Listening is the work of
whoever starts it for each connection.
-/

namespace Switchyard.Main

/-- The variables of the environment that settings are read from. -/
def environment : IO (List (List Char × List Char)) :=
  Setting.all.filterMapM fun s => do
    let value ← IO.getEnv s.variableName
    return value.map fun text => (s.variableName.toList, text.toList)

/-- The properties file in the working directory, if it can be read. -/
def propertiesFile : IO (Option Bytes) := do
  try
    let bytes ← IO.FS.readBinFile "server.properties"
    return some bytes.toList
  catch _ => return none

/-- Writes lines to the log. -/
def report (lines : List LogLine) : IO Unit :=
  lines.forM fun l => IO.eprintln (String.ofList l.shown)

/-- What connections are served with. Names stay as they are, since there is nobody to ask. -/
def service (config : Config) : Service where
  config
  provider := Provider.unknownLabel
  resolve := NameAnswer.resolve fun _ => none
  fallback := if config.fallback.isSome then .forward else .close

/-- Serves the client until one of the two sides is done. -/
partial def serve (s : Service) (c : Connection Wire) : IO Unit := do
  let c := c.poll s
  let stdout ← IO.getStdout
  stdout.write (ByteArray.mk c.phase.stream.written.toArray)
  stdout.flush
  unless c.phase.isClosed do
    let chunk ← (← IO.getStdin).read 8192
    let wire := { c.phase.stream with sent := chunk.toList, ended := chunk.isEmpty, written := [] }
    serve s { c with phase := c.phase.withStream wire }

end Switchyard.Main

open Switchyard in
/-- Runs the program. -/
def main (args : List String) : IO UInt32 := do
  let environment ← Main.environment
  let settings := Settings.read (args.map String.toList) fun name => environment.lookup name
  match Startup.plan (some .default) settings (← Main.propertiesFile) with
  | .stops code log =>
    Main.report log
    return UInt32.ofNat code
  | .listens config _ log =>
    Main.report log
    Main.serve (Main.service config) (.start Wire.idle)
    return 0
