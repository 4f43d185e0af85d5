import TapeLife.Checkpoint.Queue
import TapeLife.Grid.History

/-!
# Checkpoint/Schedule — the run and the worker, step by step

    run: change · save · close · join · leave   ──channel──▸   worker: receive · write · halt

The run works through its errands and puts messages into a channel; the worker takes them out in the
same order, writes snapshots, and halts at the message that says so.  An `Exchange` is a moment of
both sides, and `Exchange.Step` is a step of either, so the steps of the two interleave in any way.
A run that shuts the worker down waits until it halts; so does a run that leaves without having shut
it down.

Two others do the same errands alone.  `WriteQueue.attend` keeps what is saved until the queue is
closed, and `writeInPlace` writes every snapshot at once.
-/

namespace TapeLife

/-- What the run does with a soup and a worker. -/
inductive Errand
  | change (change : Change)
  /-- Sends a snapshot of the soup as it is. -/
  | save (path : Path)
  /-- Stops the worker and asks how many writes failed. -/
  | shutdown

/-- Whether the worker is stopped. -/
def Errand.isShutdown : Errand → Bool
  | .shutdown => true
  | .change _ | .save _ => false

/-- The snapshots that are sent before the worker is stopped, of the soup as it is each time. -/
def snapshotsOf : Grid → List Errand → List Snapshot
  | _, [] => []
  | g, .change change :: rest => snapshotsOf (g.apply change).1 rest
  | g, .save path :: rest => g.snapshot path :: snapshotsOf g rest
  | _, .shutdown :: _ => []

/-! ## Both sides -/

/-- What goes through the channel. -/
inductive Message
  | save (snapshot : Snapshot)
  | stop

/-- What the worker is at. -/
inductive Worker
  | receiving
  | writing (snapshot : Snapshot)
  | stopped

/-- How the run holds the worker. -/
inductive Handle
  | held
  /-- The run has told the worker to stop, and waits. -/
  | joining
  | released
deriving DecidableEq

/-- The run and the worker at one moment. -/
structure Exchange where
  todo : List Errand
  grid : Grid
  handle : Handle
  /-- What the shutdowns so far have returned. -/
  answers : List Nat
  /-- First in, first out. -/
  channel : List Message
  worker : Worker
  /-- One for every snapshot that was written, in order. -/
  reports : List WriteReport
  tree : FileTree

namespace Exchange

/-- A run with a new worker. -/
def start (g : Grid) (tree : FileTree) (errands : List Errand) : Exchange :=
  { todo := errands, grid := g, handle := .held, answers := [], channel := []
    worker := .receiving, reports := [], tree }

/-- Puts a message into the channel; it is lost if the worker is gone. -/
def post (e : Exchange) (message : Message) : Exchange :=
  match e.worker with
  | .stopped => e
  | .receiving | .writing _ => { e with channel := e.channel ++ [message] }

/-- The writes that failed so far. -/
def failures (e : Exchange) : Nat := e.reports.countP (·.failure.isSome)

/-- Whether the run is over. -/
def Finished (e : Exchange) : Prop := e.todo = [] ∧ e.handle = .released

/-- A step of the run or of the worker. -/
inductive Step (e : Exchange) : Exchange → Prop
  | change {change : Change} {rest : List Errand} (htodo : e.todo = .change change :: rest) :
    Step e { e with todo := rest, grid := (e.grid.apply change).1 }
  | save {path : Path} {rest : List Errand} (htodo : e.todo = .save path :: rest) :
    Step e { e.post (.save (e.grid.snapshot path)) with todo := rest }
  /-- The first shutdown sends its message, and so does the end of a run without one. -/
  | close (htodo : e.todo = [] ∨ ∃ rest, e.todo = .shutdown :: rest) (hheld : e.handle = .held) :
    Step e { e.post .stop with handle := .joining }
  /-- The first shutdown returns. -/
  | join {rest : List Errand} (htodo : e.todo = .shutdown :: rest) (hjoining : e.handle = .joining)
      (hstopped : e.worker = .stopped) :
    Step e { e with todo := rest, handle := .released, answers := e.answers ++ [e.failures] }
  /-- The run ends, and nobody asks for the number of failures. -/
  | leave (htodo : e.todo = []) (hjoining : e.handle = .joining) (hstopped : e.worker = .stopped) :
    Step e { e with handle := .released }
  /-- A later shutdown has nobody to wait for. -/
  | again {rest : List Errand} (htodo : e.todo = .shutdown :: rest) (hdone : e.handle = .released) :
    Step e { e.post .stop with todo := rest, answers := e.answers ++ [0] }
  | receive {s : Snapshot} {rest : List Message} (hchannel : e.channel = .save s :: rest)
      (hworker : e.worker = .receiving) :
    Step e { e with channel := rest, worker := .writing s }
  | write {s : Snapshot} (hworker : e.worker = .writing s) :
    Step e { e with
      worker := .receiving
      tree := (WriteQueue.write e.tree s).1
      reports := e.reports ++ [(WriteQueue.write e.tree s).2] }
  /-- The worker is gone, and its end of the channel with it. -/
  | halt {rest : List Message} (hchannel : e.channel = .stop :: rest)
      (hworker : e.worker = .receiving) :
    Step e { e with channel := [], worker := .stopped }

end Exchange

/-! ## One side alone -/

namespace WriteQueue

/-- Does all errands, and closes the queue in the end: the files, and what the shutdowns
returned. -/
def attend (q : WriteQueue) (g : Grid) (tree : FileTree) : List Errand → FileTree × List Nat
  | [] => ((q.shutdown tree).1, [])
  | .change change :: rest => q.attend (g.apply change).1 tree rest
  | .save path :: rest => (q.send (g.snapshot path)).attend g tree rest
  | .shutdown :: rest =>
    let (tree, q, failed) := q.shutdown tree
    let (tree, answers) := q.attend g tree rest
    (tree, failed :: answers)

end WriteQueue

/-- Writes snapshots one after another: the files afterwards, and what became of each. -/
def writeInPlace : FileTree → List Snapshot → FileTree × List WriteReport
  | tree, [] => (tree, [])
  | tree, s :: rest =>
    let (tree, report) := WriteQueue.write tree s
    let (tree, reports) := writeInPlace tree rest
    (tree, report :: reports)

end TapeLife
