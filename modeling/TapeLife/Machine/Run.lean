import TapeLife.Cell
import TapeLife.Machine.Basic

/-!
# Machine/Run — running a machine on a budget of steps

`Machine.run` executes instructions until the machine stops or the budget is spent, and keeps a
`Tally` of what happened.  A cell runs alone on its own tape (`Cell.runAlone`) or on its tape joined
to a neighbour's, with the channel head on the neighbour's first byte (`Cell.runBeside`).
-/

namespace TapeLife

/-- What a run did. -/
structure Tally where
  /-- Instructions taken from the budget. -/
  steps : Nat := 0
  /-- Steps that did something. -/
  ops : Nat := 0
  /-- Steps on bytes that do nothing. -/
  skipped : Nat := 0
  /-- Whether the halt instruction ended the run. -/
  halted : Bool := false
  /-- Writes that landed on the neighbour's tape. -/
  channelWrites : Nat := 0
  /-- Bytes drawn from the stream. -/
  randomDraws : Nat := 0
deriving DecidableEq, Repr

variable {n : Nat}

/-- The tally after the next instruction of `m` is executed. -/
def Tally.count (t : Tally) (m : Machine n) : Tally :=
  let op := m.instruction
  { steps := t.steps + 1
    ops := if op = .idle then t.ops else t.ops + 1
    skipped := if op = .idle then t.skipped + 1 else t.skipped
    halted := t.halted || op == .halt
    channelWrites :=
      if m.target.any (tapeSize ≤ ·.val) then t.channelWrites + 1 else t.channelWrites
    randomDraws := if op = .random then t.randomDraws + 1 else t.randomDraws }

/-- The end of a run. -/
structure Ending (n : Nat) where
  machine : Machine n
  tally : Tally
  /-- Why the machine stopped; nothing if the budget was spent first. -/
  stop : Option Stop

namespace Machine

/-- Runs until the machine stops or the budget is spent, counting on from a tally. -/
def runFrom : (budget : Nat) → Machine n → Tally → Ending n
  | 0, m, t => ⟨m, t, none⟩
  | budget + 1, m, t =>
    match m.step with
    | (m', none) => runFrom budget m' (t.count m)
    | (m', some why) => ⟨m', t.count m, some why⟩

/-- Runs until the machine stops or the budget is spent. -/
def run (budget : Nat) (m : Machine n) : Ending n := runFrom budget m {}

/-- A machine about to start: everything at the first byte, the channel head where it is told. -/
def start (memory : Vector UInt8 n) (head1 : Fin n) (stream : Stream) : Machine n :=
  { memory, place := ⟨0, head1.pos⟩, head0 := ⟨0, head1.pos⟩, head1, acc := 0, stream }

end Machine

/-- The tape that a cell and its neighbour share for one run, the cell's bytes first. -/
abbrev JoinedTape := Vector UInt8 (tapeSize + tapeSize)

namespace JoinedTape

/-- The cell's half of a joined tape. -/
def own (joined : JoinedTape) : Tape := Vector.ofFn fun i => joined[i.val]

/-- The neighbour's half of a joined tape. -/
def neighbour (joined : JoinedTape) : Tape := Vector.ofFn fun i => joined[tapeSize + i.val]

@[simp] theorem own_append (tape neighbour : Tape) : own (tape ++ neighbour) = tape := by
  ext i hi
  simp [own]

@[simp] theorem neighbour_append (tape other : Tape) : neighbour (tape ++ other) = other := by
  ext i hi
  simp [neighbour]

theorem get_own (joined : JoinedTape) (k : Fin tapeSize) :
    joined.own.get k = joined.get (Fin.castAdd tapeSize k) := Vector.getElem_ofFn k.isLt

theorem get_neighbour (joined : JoinedTape) (k : Fin tapeSize) :
    joined.neighbour.get k = joined.get (Fin.natAdd tapeSize k) := Vector.getElem_ofFn k.isLt

end JoinedTape

namespace Cell

/-- The machine of a cell that runs alone. -/
def machineAlone (cell : Cell) : Machine tapeSize := .start cell.tape 0 cell.stream

/-- The machine of a cell that runs beside a neighbour. -/
def machineBeside (cell : Cell) (neighbour : Tape) : Machine (tapeSize + tapeSize) :=
  .start (cell.tape ++ neighbour) ⟨tapeSize, by decide⟩ cell.stream

/-- Runs a cell on its own tape. -/
def runAlone (budget : Nat) (cell : Cell) : Cell × Tally :=
  let ending := cell.machineAlone.run budget
  ({ cell with tape := ending.machine.memory, stream := ending.machine.stream }, ending.tally)

/-- Runs a cell on its tape joined to a neighbour's: the cell, the neighbour's tape, the tally. -/
def runBeside (budget : Nat) (cell : Cell) (neighbour : Tape) : Cell × Tape × Tally :=
  let ending := (cell.machineBeside neighbour).run budget
  let joined : JoinedTape := ending.machine.memory
  ({ cell with tape := joined.own, stream := ending.machine.stream }, joined.neighbour,
    ending.tally)

end Cell

end TapeLife
