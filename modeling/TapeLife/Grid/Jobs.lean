import TapeLife.Grid.Epoch

/-!
# Grid/Jobs — an epoch as jobs one after another

A plan leaves one job for every pair and one for every cell in no pair.  `Grid.stepWith` runs pairs
on a snapshot, everybody else in place, and writes the pairs back at the end.  Here every job works
on the cells as it finds them, and `Grid.stepInOrder` takes the jobs in any order.
-/

namespace TapeLife

/-- A piece of the work of an epoch. -/
inductive Job
  | beside (pair : Pair)
  | alone (cell : Nat)
deriving DecidableEq

/-- The jobs that a plan leaves for `n` cells. -/
def Plan.jobs (plan : Plan) (n : Nat) : List Job :=
  plan.formed.map .beside ++ ((List.range n).filter fun i => !plan.hasMember i).map .alone

/-- Does one job on the cells, and counts it. -/
def Job.perform (dose : Dose) : Array Cell × Totals → Job → Array Cell × Totals
  | (cells, totals), .beside pair =>
    match cells[pair.initiator]?, cells[pair.partner]? with
    | some a, some b =>
      let ((a, b), more) := a.liveBeside dose b
      ((cells.setIfInBounds pair.initiator a).setIfInBounds pair.partner b,
        totals + more + { interactions := 1 })
    | _, _ => (cells, totals)
  | (cells, totals), .alone i =>
    match cells[i]? with
    | some cell =>
      let (cell, more) := cell.liveAlone dose
      (cells.setIfInBounds i cell, totals + more + { soloRuns := 1 })
    | none => (cells, totals)

namespace Grid

/-- One epoch with a given plan, its jobs done in a given order. -/
def stepInOrder (g : Grid) (plan : Plan) (jobs : List Job) : Grid × Totals :=
  let start : Totals := { epochs := 1, droppedClaims := plan.abandoned.length }
  let (cells, totals) := jobs.foldl (Job.perform g.params.dose) (g.cells, start)
  let next := if g.epoch.toNat + 1 < UInt32.size then g.epoch + 1 else g.epoch
  ({ g with epoch := next, cells := cells.map Cell.unlock }, totals)

end Grid

end TapeLife
