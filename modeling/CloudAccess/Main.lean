import CloudAccess.CommandLine.Program
import CloudAccess.Console.Plain

/-!
# Command line

Reads the files that a command line mentions, runs the program on them and puts out what it
gives.
-/

namespace CloudAccess

open CommandLine

/-- What the system says of a directory that is opened as a file. -/
def directoryCode : UInt32 := 21

/-- The entry at a path, if there is one that can be read, with the path. -/
def readEntry (path : String) : IO (Option (String × Entry)) := do
  try
    let bytes ← IO.FS.readBinFile path
    return some (path, .file bytes.toList)
  catch
    | .inappropriateType _ code _ =>
      return if code = directoryCode then some (path, .directory) else none
    | _ => return none

/-- The variables of the environment that the program looks at. -/
def readEnvironment : IO Environment := do
  match ← IO.getEnv dataVariable with
  | some value => return [(dataVariable, value)]
  | none => return []

/-- Runs the program for real; there is no clock for its log. -/
def perform (words : List String) : IO UInt32 := do
  let env ← readEnvironment
  let paths := ((mentionedFiles words env).flatMap Files.waypoints).eraseDups
  let o := run words env (.ofPaths (← paths.filterMapM readEntry))
  IO.eprint (o.stderr "-")
  IO.print o.stdout
  for item in o.shown do
    for line in item.lines do
      IO.println line
  return o.exit.toUInt32

end CloudAccess

def main (words : List String) : IO UInt32 := CloudAccess.perform words
