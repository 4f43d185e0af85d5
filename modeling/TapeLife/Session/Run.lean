import TapeLife.Census.Log
import TapeLife.Session.Start

/-!
# Session/Run — a run from its first to its last epoch

A run computes batches of epochs until the soup has the epoch that was asked for; the last batch is
cut short.  After every batch it looks which intervals were crossed, reports progress, takes a
census and sends a snapshot to the queue.  At the end it sends the last snapshot, waits for the
queue, and takes a last census.

Nothing that is reported or written has an influence on what is computed.  What becomes of rows and
snapshots is up to a `Medium`, which has room for everything unless another one is given.
-/

namespace TapeLife

/-- Tapes that are shown with every report. -/
def sampleCount : Nat := 4

/-- Whether a count that went from `before` to `after` crossed a multiple of an interval. -/
def crossed (before after interval : UInt32) : Bool :=
  0 < interval && before / interval != after / interval

/-- A run in progress. -/
structure Session where
  grid : Grid
  tree : FileTree
  log : StatsLog
  /-- The queue of snapshots, if there are any. -/
  queue : Option WriteQueue
  totals : Totals
  /-- What was reported, in order. -/
  events : List Event

/-- What becomes of what a run writes while it computes. -/
structure Medium where
  /-- Adds a row to the table of censuses; also why the row was refused if it was. -/
  addRow : FileTree → StatsLog → Census → FileTree × StatsLog × Option FileError
  /-- Writes what waits in the queue and closes it; also the number of writes that failed. -/
  settle : FileTree → WriteQueue → FileTree × WriteQueue × Nat

/-- A medium with room for everything: no row is refused, and snapshots only by the files in their
way. -/
def Medium.roomy : Medium where
  addRow tree log census :=
    let (tree, log) := log.record tree unmeasured census
    (tree, log, none)
  settle tree q := q.shutdown tree

namespace Session

/-- The run with more reports. -/
def report (s : Session) (events : List Event) : Session := { s with events := s.events ++ events }

/-- The first tapes of a soup. -/
def samples (g : Grid) : List Event :=
  (g.cells.toList.take sampleCount).zipIdx.map fun (cell, i) => .sample i cell.tape

/-- What a run says of itself before its first epoch. -/
def opening (settings : Settings) (g : Grid) : List Event :=
  [.banner, .shape g.params, .dose g.params, .length settings.run.epochs settings.run.speed]
    ++ samples g

/-- Takes a census, reports it and adds it to the table. -/
def takeCensus (s : Session) (medium : Medium := .roomy) : Session :=
  let census := Census.ofGrid s.grid
  let (tree, log, failure) := medium.addRow s.tree s.log census
  { s with tree, log }.report (.census census :: failure.toList.map .rowFailed)

/-- Sends a snapshot to the queue, if there is one. -/
def sendSnapshot (settings : Settings) (s : Session) : Session :=
  let path := checkpointPath settings.checkpoint.path s.grid.epoch
  { s with queue := s.queue.map fun q => q.send (s.grid.snapshot path) }

/-- The epochs of the next batch. -/
def batchSize (settings : Settings) (g : Grid) : UInt32 :=
  min settings.run.speed (settings.run.epochs - g.epoch)

/-- Computes one batch and looks which intervals it crossed. -/
def batch (settings : Settings) (entropy : Nat → UInt64) (s : Session)
    (medium : Medium := .roomy) : Session :=
  let before := s.grid.epoch
  let (grid, reports) := s.grid.advance entropy (batchSize settings s.grid).toNat
  let totals := Totals.sum (reports.map (·.totals))
  let s := { s with grid, totals := s.totals + totals }.report (reports.flatMap Event.ofEpoch)
  let after := grid.epoch
  let s :=
    if crossed before after settings.run.reportInterval then
      s.report (.progress after totals :: samples grid)
    else s
  let s :=
    if settings.metrics.enabled && crossed before after settings.metrics.interval then
      s.takeCensus medium
    else s
  if crossed before after settings.checkpoint.interval then s.sendSnapshot settings else s

/-- Computes batches until the soup has the epoch that was asked for.  Every batch counts for at
least one of the epochs that are left, so `left` of them are enough. -/
def batches (settings : Settings) (entropy : Nat → UInt64) :
    (left : Nat) → Session → (medium : Medium := .roomy) → Session
  | 0, s, _ => s
  | left + 1, s, medium =>
    if s.grid.epoch < settings.run.epochs then
      batches settings (fun i => entropy (i + settings.run.speed.toNat)) left
        (s.batch settings entropy medium) medium
    else s

/-- Sends the last snapshot, waits for the queue, and takes the last census. -/
def finish (settings : Settings) (start : UInt32) (s : Session) (medium : Medium := .roomy) :
    Session :=
  let s := s.sendSnapshot settings
  let s := match s.queue with
    | none => s
    | some q =>
      let (tree, q, failures) := medium.settle s.tree q
      { s with tree, queue := some q }.report (if failures = 0 then [] else [.savesFailed failures])
  let s := if settings.metrics.enabled then s.takeCensus medium else s
  let s := s.report [.complete (s.grid.epoch.toNat - start.toNat) s.totals]
  { s with tree := s.log.close s.tree }

/-- What the worker of the queue reported. -/
def writerEvents (s : Session) : List Event :=
  match s.queue with
  | none => []
  | some q => q.reports.map Event.ofWrite

/-- The file of the table of censuses, if one is wanted. -/
def tablePath? (settings : Settings) : Option Path :=
  if settings.metrics.enabled && settings.metrics.outputFile != "" then
    some settings.metrics.outputFile
  else none

/-- Why a run ended before its first epoch. -/
inductive Failure
  | soup (cause : SoupError)
  | file (cause : FileError)

/-- The wording of a failure. -/
def Failure.message : Failure → String
  | .soup cause => cause.message
  | .file cause => cause.message

/-- A run before its first epoch: the soup and the table. -/
def start (settings : Settings) (tree : FileTree) :
    FileTree × List Event × Except Failure Session :=
  match settings.startGrid tree with
  | (events, .error cause) => (tree, events, .error (.soup cause))
  | (events, .ok grid) =>
    let events := events ++ opening settings grid
    match StatsLog.openAt tree (tablePath? settings) with
    | (tree, .error cause) => (tree, events, .error (.file cause))
    | (tree, .ok log) =>
      let queue := if settings.checkpoint.enabled then some WriteQueue.fresh else none
      (tree, events, .ok { grid, tree, log, queue, totals := {}, events })

/-- A run from its first to its last epoch. -/
def complete (settings : Settings) (entropy : Nat → UInt64) (s : Session)
    (medium : Medium := .roomy) : Session :=
  let start := s.grid.epoch
  let left := settings.run.epochs.toNat - start.toNat
  (s.batches settings entropy left medium).finish settings start medium

/-- A whole run: the files afterwards, its reports, those of the worker, and why it failed if it
did. -/
def run (settings : Settings) (entropy : Nat → UInt64) (tree : FileTree)
    (medium : Medium := .roomy) : FileTree × List Event × List Event × Option Failure :=
  match start settings tree with
  | (tree, events, .error cause) => (tree, events, [], some cause)
  | (_, _, .ok s) =>
    let s := s.complete settings entropy medium
    (s.tree, s.events, s.writerEvents, none)

end Session

end TapeLife
