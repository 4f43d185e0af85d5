import TapeLife.Census.Basic

/-!
# Census/Pass — the census in one pass

The numbers of a `Census` are defined one by one.  A machine gets all of them from one visit to
every cell, with counters that go up.
-/

namespace TapeLife

/-- What has been counted so far. -/
structure Pass where
  counts : ByteCounts
  emptyTapes : Nat
  /-- Bytes on tapes that are not blank. -/
  liveBytes : Nat
  /-- Instruction bytes on tapes that are not blank. -/
  liveInstructions : Nat
deriving DecidableEq

namespace Pass

/-- Nothing has been visited. -/
def start : Pass := ⟨Vector.replicate 256 0, 0, 0, 0⟩

/-- Counts a cell. -/
def visit (pass : Pass) (cell : Cell) : Pass :=
  let counts := cell.tape.toList.foldl ByteCounts.add pass.counts
  if cell.isBlank then { pass with counts, emptyTapes := pass.emptyTapes + 1 }
  else
    { pass with
      counts
      liveBytes := pass.liveBytes + tapeSize
      liveInstructions :=
        pass.liveInstructions + cell.tape.toList.countP Instruction.isActive }

end Pass

/-- Visits every cell of a soup. -/
def Grid.pass (g : Grid) : Pass := g.cells.foldl Pass.visit .start

end TapeLife
