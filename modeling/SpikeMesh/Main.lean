import SpikeMesh.CommandLine.Command

set_option autoImplicit false

/-! # The program

The commands on the files of a disk. Stages are not timed one by one: their times are reported
as zero. -/

namespace SpikeMesh.CommandLine

/-- Why the system could not read a file. -/
def ReadError.ofSystem : IO.Error → ReadError
  | .noFileOrDirectory .. => .missing
  | .inappropriateType _ code _ => if code == 21 then .isDirectory else .notDirectory
  | e => .other (toString e)

/-- The files of the disk. -/
def disk : FileAccess IO where
  currentDirectory := do return (← IO.currentDir).toString
  isFile path := do
    try
      discard (IO.FS.readBinFile path)
      return true
    catch _ => return false
  readText path := do
    try
      return .ok (← IO.FS.readFile path)
    catch e => return .error (.ofSystem e)

end SpikeMesh.CommandLine

open SpikeMesh.CommandLine in
/-- Do what the arguments ask for and print the outcome. -/
def main (args : List String) : IO UInt32 := do
  let errorsToTerminal ← (← IO.getStderr).isTty
  let outcome ← runProgram ⟨disk, errorsToTerminal, fun _ => 0⟩ args
  outcome.output.forM IO.println
  outcome.errors.forM IO.eprintln
  return UInt32.ofNat outcome.exitCode
