import Assay.CommandLine

/-!
# The program

Reads the profile's file, if the arguments name one, and prints what the command line yields.
-/

namespace Assay

/-- The text of a file, if it can be read. -/
def readText? (path : String) : IO (Option String) := do
  try
    return some (← IO.FS.readFile path)
  catch _ =>
    return none

end Assay

open Assay in
def main (args : List String) : IO UInt32 := do
  let defaultSeed ← IO.monoNanosNow
  let path := ((CommandLine.parse? [] {} args).map (·.profile)).getD ""
  let text? ← if Profile.isPath path then readText? path else pure none
  let report := CommandLine.run (fun _ => text?) defaultSeed args
  for line in report.stdout do IO.println line
  for line in report.stderr do IO.eprintln line
  return UInt32.ofNat report.exitCode
