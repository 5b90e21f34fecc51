import Retarget.CommandLine

set_option autoImplicit false

/-!
# The program

The command line on the file system of the machine.
-/

namespace Retarget

/-- The file system of the machine. What cannot be accessed is not there. -/
def machineFileSystem : FileSystem IO where
  kind? path := do
    let here ← IO.currentDir
    try
      let data ← (here / path).metadata
      return some (if data.type == .dir then .directory else .file)
    catch _ => return none
  children path := do
    let here ← IO.currentDir
    try
      return ((← (here / path).readDir).map fun entry => entry.fileName).toList
    catch _ => return []
  read? path := do
    let here ← IO.currentDir
    try
      return some (← IO.FS.readFile (here / path))
    catch _ => return none

end Retarget

/-- Checks the fixtures that the arguments name. -/
def main (arguments : List String) : IO UInt32 := do
  let outcome ← Retarget.run Retarget.machineFileSystem arguments
  IO.print outcome.output
  if let some message := outcome.fatal? then
    IO.eprintln ("Error: " ++ message)
  if outcome = .usageError then
    IO.eprint Retarget.usage
  return outcome.exitCode.toUInt32
