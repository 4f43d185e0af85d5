import TapeLife.Census.Basic
import TapeLife.Files.Output

/-!
# Census/Log — a table of censuses in a file

Opening a log empties its file.  The heading waits in memory and is written together with the first
row, or when the log is closed without one; every row is written at once.  A log without a file
takes rows and writes nothing.
-/

namespace TapeLife

/-- A table of censuses, or nowhere to write one. -/
structure StatsLog where
  file : Option OutputFile

namespace StatsLog

/-- A log that writes nothing. -/
def nowhere : StatsLog := ⟨none⟩

/-- The heading of the table. -/
def heading : String :=
  "epoch,compression_ratio,h0,instruction_fraction,zero_fraction,"
    ++ "unique_bytes,live_tapes,total_tapes"

/-- A row of the table.  How far the tapes compress is measured elsewhere and given as text. -/
def row (ratio : String) (c : Census) : String :=
  let places := fun x : Float => fixedText 4 (.ofFloat x)
  s!"{c.epoch},{ratio},{places c.entropy},{places c.instructionFraction},"
    ++ s!"{places c.zeroFraction},{c.uniqueBytes},{c.liveTapes},{c.totalTapes}"

/-- Opens a log, and makes the directories above its file that are missing. -/
def openAt (tree : FileTree) : Option Path → FileTree × Except FileError StatsLog
  | none => (tree, .ok nowhere)
  | some path =>
    match tree.makeParents path with
    | (tree, some cause) => (tree, .error cause)
    | (tree, none) =>
      match tree.create path with
      | .error cause => (tree, .error cause)
      | .ok (place, tree) => (tree, .ok ⟨some (.start place (heading ++ "\n"))⟩)

/-- Adds a row. -/
def record (log : StatsLog) (tree : FileTree) (ratio : String) (c : Census) : FileTree × StatsLog :=
  match log.file with
  | none => (tree, log)
  | some file =>
    let (tree, file) := (file.append (row ratio c ++ "\n")).flush tree
    (tree, ⟨some file⟩)

/-- Writes what waits. -/
def close (log : StatsLog) (tree : FileTree) : FileTree :=
  match log.file with
  | none => tree
  | some file => (file.flush tree).1

end StatsLog

end TapeLife
