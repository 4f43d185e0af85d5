import TapeLife.Checkpoint.Name
import TapeLife.Saved.Soup

/-!
# Checkpoint/Queue — writing behind the run

A run hands snapshots to a worker and goes on.  They wait in a queue, first in, first out, and the
worker writes them one at a time; closing the queue lets the worker finish what waits and then
counts the writes that failed.  `WriteQueue.send` and `WriteQueue.work` are the steps of the two
sides, which may interleave in any way.
-/

namespace TapeLife

/-- A snapshot on its way to a file. -/
structure Snapshot where
  path : Path
  bytes : List UInt8
  epoch : UInt32
deriving DecidableEq

/-- The snapshot of a soup for a file. -/
def Grid.snapshot (g : Grid) (path : Path) : Snapshot := ⟨path, g.save, g.epoch⟩

/-- What happened to a snapshot. -/
structure WriteReport where
  path : Path
  epoch : UInt32
  failure : Option FileError
deriving DecidableEq

/-- Snapshots that wait, and what became of those before them. -/
structure WriteQueue where
  waiting : List Snapshot
  /-- One for every snapshot that was handled, in order. -/
  reports : List WriteReport
  /-- Whether no more snapshots are taken. -/
  closed : Bool

namespace WriteQueue

/-- A queue that nothing was sent to. -/
def fresh : WriteQueue := ⟨[], [], false⟩

/-- Writes one snapshot. -/
def write (tree : FileTree) (s : Snapshot) : FileTree × WriteReport :=
  let (tree, failure) := tree.writeDeep s.path s.bytes
  (tree, ⟨s.path, s.epoch, failure⟩)

/-- The run's step: adds a snapshot at the end, unless the queue is closed. -/
def send (q : WriteQueue) (s : Snapshot) : WriteQueue :=
  if q.closed then q else { q with waiting := q.waiting ++ [s] }

/-- The worker's step: writes the first snapshot that waits. -/
def work (q : WriteQueue) (tree : FileTree) : FileTree × WriteQueue :=
  match q.waiting with
  | [] => (tree, q)
  | s :: rest =>
    let (tree, report) := write tree s
    (tree, { q with waiting := rest, reports := q.reports ++ [report] })

/-- The worker's steps until nothing waits. -/
def drain (q : WriteQueue) (tree : FileTree) : FileTree × WriteQueue :=
  q.waiting.length.repeat (fun (tree, q) => q.work tree) (tree, q)

/-- The number of writes that failed. -/
def failures (q : WriteQueue) : Nat := q.reports.countP (·.failure.isSome)

/-- Closes the queue: everything that waits is written.  Also the number of failed writes, which is
reported once. -/
def shutdown (q : WriteQueue) (tree : FileTree) : FileTree × WriteQueue × Nat :=
  if q.closed then (tree, q, 0)
  else
    let (tree, q) := q.drain tree
    (tree, { q with closed := true }, q.failures)

end WriteQueue

end TapeLife
