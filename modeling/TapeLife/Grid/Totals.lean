import TapeLife.Machine.Run

/-!
# Grid/Totals — what epochs did

Counts over any number of epochs.  They are natural numbers and add up in every field
(`Totals.add`).
-/

namespace TapeLife

/-- Counts over some epochs. -/
structure Totals where
  epochs : Nat := 0
  /-- Runs of a cell beside its partner. -/
  interactions : Nat := 0
  /-- Runs of a cell alone. -/
  soloRuns : Nat := 0
  /-- Candidates that could not be claimed. -/
  droppedClaims : Nat := 0
  steps : Nat := 0
  ops : Nat := 0
  /-- Runs that the halt instruction ended. -/
  halted : Nat := 0
  channelWrites : Nat := 0
  mutations : Nat := 0
deriving DecidableEq, Repr

namespace Totals

/-- The sum of two counts. -/
def add (a b : Totals) : Totals :=
  { epochs := a.epochs + b.epochs
    interactions := a.interactions + b.interactions
    soloRuns := a.soloRuns + b.soloRuns
    droppedClaims := a.droppedClaims + b.droppedClaims
    steps := a.steps + b.steps
    ops := a.ops + b.ops
    halted := a.halted + b.halted
    channelWrites := a.channelWrites + b.channelWrites
    mutations := a.mutations + b.mutations }

instance : Add Totals := ⟨add⟩

/-- The sum of many counts. -/
def sum (all : List Totals) : Totals := all.foldl (· + ·) {}

/-- What one run and the mutations after it add. -/
def ofRun (tally : Tally) (mutations : Nat) : Totals :=
  { steps := tally.steps
    ops := tally.ops
    halted := tally.halted.toNat
    channelWrites := tally.channelWrites
    mutations }

end Totals

end TapeLife
