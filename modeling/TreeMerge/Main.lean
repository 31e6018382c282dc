import TreeMerge.Command.Program
import TreeMerge.Unified.Apply

/-!
# Command line

The files that the program may touch are read first; then the program runs, and its output and the
files it changed are written.
-/

namespace TreeMerge

/-- The error number of the system for a directory that is read as a file. -/
def directoryRead : UInt32 := 21

/-- What stands under a path. -/
def entryAt (path : String) : IO (Option DiskEntry) := do
  try
    let text ← IO.FS.readFile path
    return some (.file text)
  catch
    | .inappropriateType _ code _ => return if code == directoryRead then some .directory else none
    | _ => return none

/-- The entries under the given paths and above them. -/
def loadDisk (paths : List Text) : IO Disk := do
  let mut disk : Disk := []
  for path in paths.flatMap fun p => p :: Path.ancestors p do
    if let some entry ← entryAt path.toString then
      disk := disk.put path entry
  return disk

/-- Write the files that a run changed. -/
def storeChanges (paths : List Text) (before after : Disk) : IO Unit := do
  for path in paths do
    if let some text := after.text? path then
      if before.text? path != some text then
        IO.FS.writeFile path.toString text.toString

end TreeMerge

open TreeMerge in
/-- Run the program and give its exit code. -/
def main (args : List String) : IO UInt32 := do
  let directory : Text := (← IO.currentDir).toString
  let args := args.map Text.ofString
  let paths := match readArguments args with
    | .ok invocation => invocation.paths directory
    | .error _ => []
  let disk ← loadDisk paths
  let run := runProgram { directory, disk, parser := some .unlinked, diffs := Unified.tool } args
  storeChanges paths disk run.disk
  IO.print run.streams.out.toString
  IO.eprint run.streams.err.toString
  return (run.exitCode.toNat?.getD 1).toUInt32
