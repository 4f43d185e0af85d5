import TapeLife.Export.Command
import TapeLife.Session.Command

/-!
# Main — the program on a real machine

What a command does is a function of its arguments, the files and some entropy
(`Command.follow`, `Export.follow`).  Here the files are read from disk, the function is applied,
and what it changed is written back.  Under the name of the exporter the program exports saved
soups; under every other name it runs a soup.
-/

namespace TapeLife.Disk

/-- The name under which the program exports. -/
def exporterName : String := "world_to_csv"

/-- A directory entry and everything below it. -/
partial def below (place : Location) (entry : IO.FS.DirEntry) : IO (List (Location × Entry)) := do
  let here := place ++ [entry.fileName]
  if ← entry.path.isDir then
    let inner ← (← entry.path.readDir).toList.mapM (below here)
    return (here, .directory) :: inner.flatten
  else
    return [(here, .file (← IO.FS.readBinFile entry.path).toList)]

/-- What an absolute path names, with the directories that lead to it. -/
def outside (path : Path) : IO (List (Location × Entry)) := do
  let names := path.steps
  let entry : IO.FS.DirEntry := ⟨"/" ++ "/".intercalate names.dropLast, names.getLast?.getD "."⟩
  if ← entry.path.pathExists then
    let above := (List.range names.length).map fun n => ("/" :: names.take n, Entry.directory)
    return above ++ (← below ("/" :: names.dropLast) entry)
  else
    return []

/-- The files below the working directory, and those that arguments name by absolute paths. -/
def readTree (arguments : List String) : IO FileTree := do
  let inside ← (← (← IO.currentDir).readDir).toList.mapM (below [])
  let outside ← (arguments.filter Path.isAbsolute).mapM outside
  return ⟨inside.flatten ++ outside.flatten⟩

/-- The path of a place. -/
def pathOf (place : Location) : Path :=
  .ofParts (place.head? == some "/") (place.filter (· != "/"))

/-- Writes what a command changed. -/
def writeChanges (before after : FileTree) : IO Unit :=
  after.entries.forM fun (place, entry) => do
    if before.entry? place != some entry then
      match entry with
      | .directory => IO.FS.createDirAll (pathOf place)
      | .file contents => IO.FS.writeBinFile (pathOf place) contents.toByteArray

/-- Entropy that differs from run to run. -/
def entropy : IO (Nat → UInt64) := do
  let seed := UInt64.ofNat (ofLittleEndian (← IO.getRandomBytes 8).toList)
  return fun i => mix64 (UInt64.ofNat i + seed)

/-- Exports saved soups. -/
def runExport (arguments : List String) : IO UInt32 := do
  let tree ← readTree arguments
  let outcome := Export.follow arguments tree
  IO.print outcome.stdout
  IO.eprint outcome.stderr
  writeChanges tree outcome.tree
  return UInt32.ofNat outcome.exitCode

/-- Runs a soup. -/
def runSession (arguments : List String) : IO UInt32 := do
  let tree ← readTree arguments
  let rank := Level.shownRank ((← IO.getEnv logVariable).getD "")
  let outcome := Command.follow arguments (← entropy) tree
  IO.print outcome.stdout
  (outcome.events ++ outcome.writerEvents).forM fun event => do
    if event.level.rank ≤ rank then IO.eprintln event.line
  writeChanges tree outcome.tree
  return UInt32.ofNat outcome.exitCode

end TapeLife.Disk

/-- Follows a command line under the name that the program was started by. -/
def main (arguments : List String) : IO UInt32 := do
  if (← IO.appPath).fileName == some TapeLife.Disk.exporterName then
    TapeLife.Disk.runExport arguments
  else
    TapeLife.Disk.runSession arguments
