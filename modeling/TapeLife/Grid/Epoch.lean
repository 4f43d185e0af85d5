import TapeLife.Grid.Basic
import TapeLife.Grid.Totals
import TapeLife.Mutation
import TapeLife.Pairing.Plan

/-!
# Grid/Epoch — one step of the soup

An epoch plans the pairs and claims their cells.  Every initiator runs beside its partner on a
snapshot of both cells, everybody else runs alone in place, and every tape is mutated from its own
cell's stream.  Then the pairs are written back, all locks are released and the epoch counter moves
on; it stays where it is at its largest value.

The order of the work does not matter, because no cell is in two pairs; `Grid/Jobs` says the same
work one job at a time.
-/

namespace TapeLife

/-- What the cells of one epoch have in common. -/
structure Dose where
  /-- Steps that a run may take. -/
  budget : Nat
  /-- Chances in `2 ^ 24` that a byte is replaced. -/
  threshold : Nat

/-- The dose that parameters prescribe. -/
def Params.dose (p : Params) : Dose := ⟨p.maxSteps.toNat, mutationThreshold p.rate⟩

namespace Cell

/-- Runs and mutates a cell that is in no pair. -/
def liveAlone (dose : Dose) (cell : Cell) : Cell × Totals :=
  let (cell, tally) := cell.runAlone dose.budget
  let (cell, mutations) := cell.mutate dose.threshold
  (cell, .ofRun tally mutations)

/-- Runs a cell beside its partner and mutates both. -/
def liveBeside (dose : Dose) (cell partner : Cell) : (Cell × Cell) × Totals :=
  let (cell, tape, tally) := cell.runBeside dose.budget partner.tape
  let (cell, mutations) := cell.mutate dose.threshold
  let (partner, more) := { partner with tape }.mutate dose.threshold
  ((cell, partner), .ofRun tally (mutations + more))

end Cell

/-- What is reported of an epoch. -/
structure EpochReport where
  /-- The epoch that was computed. -/
  epoch : UInt32
  /-- Whether pairs were looked for. -/
  paired : Bool
  /-- Locks that nobody in this epoch held. -/
  staleLocks : Nat
  /-- The epoch counter afterwards. -/
  next : UInt32
  totals : Totals
deriving DecidableEq

namespace Grid

/-- The key of the grid's epoch. -/
def key (g : Grid) (entropy : UInt64) : UInt64 :=
  epochKey g.params.fixedShuffle g.epoch g.params.width g.params.height entropy

/-- The plan of an epoch and the cells with its claims on them. -/
def plan (g : Grid) (key : UInt64) : Plan × Array Cell :=
  let (plan, locks) := Plan.make g.torus g.params.maxDist.toNat key g.locks
  (plan, g.cells.mapIdx fun i cell => { cell with locked := locks.getD i cell.locked })

/-- The outcome of a pair on a snapshot of the cells. -/
def runPair (dose : Dose) (cells : Array Cell) (pair : Pair) : Option ((Cell × Cell) × Totals) :=
  match cells[pair.initiator]?, cells[pair.partner]? with
  | some a, some b => some (a.liveBeside dose b)
  | _, _ => none

/-- The cells with the outcome of a pair written back and its claim released. -/
def writeBack (cells : Array Cell) (pair : Pair) (outcome : Cell × Cell) : Array Cell :=
  (cells.setIfInBounds pair.initiator outcome.1.unlock).setIfInBounds pair.partner outcome.2.unlock

/-- Everybody who is in no pair, run and mutated in place, in order. -/
def runSolo (dose : Dose) (member : Array Bool) (cells : Array Cell) : Array Cell × List Totals :=
  let outcomes := cells.mapIdx fun i cell =>
    if member.getD i false then (cell, none)
    else
      let outcome := cell.liveAlone dose
      (outcome.1, some outcome.2)
  (outcomes.map (·.1), outcomes.toList.filterMap (·.2))

/-- One epoch with a given key. -/
def stepWith (g : Grid) (key : UInt64) : Grid × EpochReport :=
  let dose := g.params.dose
  let (plan, claimed) := g.plan key
  let pairs := plan.pairs
  let outcomes := pairs.filterMap fun pair =>
    (runPair dose claimed pair).map fun outcome => (pair, outcome)
  let (ran, solo) := runSolo dose (plan.membership g.cells.size) claimed
  let written := outcomes.foldl (fun cells (pair, outcome) => writeBack cells pair outcome.1) ran
  let totals : Totals :=
    { epochs := 1
      interactions := outcomes.length
      soloRuns := solo.length
      droppedClaims := plan.abandoned.length }
  let totals := totals + .sum (outcomes.map (·.2.2)) + .sum solo
  let next := if g.epoch.toNat + 1 < UInt32.size then g.epoch + 1 else g.epoch
  ({ g with epoch := next, cells := written.map Cell.unlock },
    { epoch := g.epoch
      paired := g.params.maxDist ≠ 0 && 2 ≤ g.cells.size
      staleLocks := written.countP (·.locked)
      next
      totals })

/-- One epoch; the entropy counts only if the parameters ask for it. -/
def step (g : Grid) (entropy : UInt64) : Grid × EpochReport := g.stepWith (g.key entropy)

/-- Some epochs, with the reports of all, the first one first.  The entropy of an epoch goes by its
number in this sequence. -/
def advance (entropy : Nat → UInt64) : (speed : Nat) → Grid → Grid × List EpochReport
  | 0, g => (g, [])
  | speed + 1, g =>
    let (g, report) := g.step (entropy 0)
    let (g, reports) := advance (fun i => entropy (i + 1)) speed g
    (g, report :: reports)

/-- Some epochs and their counts. -/
def compute (entropy : Nat → UInt64) (speed : Nat) (g : Grid) : Grid × Totals :=
  let (g, reports) := g.advance entropy speed
  (g, .sum (reports.map (·.totals)))

end Grid

end TapeLife
