import CodeImpact.Command.Run
import CodeImpact.Json.Reader
import CodeImpact.Wire.Project

/-!
# The command line

The arguments say what to do. A snapshot of the disk, with the syntax trees of its sources, is read
as JSON from standard input; it may also name the run.
-/

namespace CodeImpact

/-- The texts of the environment variables that change settings. -/
def readEnvironment : IO Environment := do
  let timeoutSeconds ← IO.getEnv "BLASTMAP_FILE_TIMEOUT_SECS"
  let maxFileSize ← IO.getEnv "BLASTMAP_MAX_FILE_SIZE"
  return ⟨timeoutSeconds, maxFileSize⟩

/-- What a snapshot says about the run. -/
def Stamp.ofJson (v : Json) : Stamp :=
  let text (name : String) := ((v.field? name).bind Json.asText?).getD ""
  ⟨text "execution_id", text "timestamp"⟩

end CodeImpact

open CodeImpact in
/-- Runs a command on the snapshot and prints what it says. -/
def main (args : List String) : IO UInt32 := do
  let env ← readEnvironment
  let input ← (← IO.getStdin).readToEnd
  let snapshot := (Json.parse? input).getD (.obj [])
  let disk := (Disk.ofJson? snapshot).getD {}
  let t := runCommandLine disk (Stamp.ofJson snapshot) env args
  IO.print t.stdout
  IO.eprint t.stderr
  if let some path := t.written then
    if let .ok text := t.disk.readText path then
      IO.FS.writeFile path text
  return t.exit.toUInt32
