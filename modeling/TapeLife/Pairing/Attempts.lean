import TapeLife.Grid.Epoch
import TapeLife.Pairing.Holders

/-!
# Pairing/Attempts — planning as a client that claims

Planning takes its locks by claiming pairs, as any client of the locks does.  Here the turns of the
cells are taken at a `Ledger`, which answers every claim, and every claim is written down with its
answer (`Attempt`).  So the history of an epoch's planning is a list: what was tried, in order, and
what came of it.  A cell that comes upon itself tries itself, and is refused like anybody else.
-/

namespace TapeLife

/-- A pair that was claimed, and the answer to the claim. -/
structure Attempt where
  pair : Pair
  granted : Bool
deriving DecidableEq, Repr

/-- Whether a cell tried another one in vain. -/
def Attempt.isDrop (attempt : Attempt) : Bool :=
  attempt.pair.partner != attempt.pair.initiator && !attempt.granted

namespace Ledger

/-- A cell claims one candidate after the other, up to the first that it is granted. -/
def tryAll (cell : Nat) : List Nat → Ledger → List Attempt × Ledger
  | [], ledger => ([], ledger)
  | other :: rest, ledger =>
    match ledger.claim cell other with
    | (ledger, true) => ([⟨⟨cell, other⟩, true⟩], ledger)
    | (ledger, false) =>
      let (attempts, ledger) := tryAll cell rest ledger
      (⟨⟨cell, other⟩, false⟩ :: attempts, ledger)

/-- The cells that are free when their turn comes try their partners, until enough pairs are
held. -/
def takeTurns (limit : Nat) (partners : Nat → List Nat) :
    List Nat → Ledger → List Attempt × Ledger
  | [], ledger => ([], ledger)
  | cell :: order, ledger =>
    if limit ≤ ledger.held.length then ([], ledger)
    else if ledger.locks.isFree cell then
      let (now, ledger) := tryAll cell (partners cell) ledger
      let (later, ledger) := takeTurns limit partners order ledger
      (now ++ later, ledger)
    else takeTurns limit partners order ledger

end Ledger

/-- The history of the planning of an epoch: all claims, in order. -/
def Plan.attempts (torus : Torus) (radius : Nat) (key : UInt64) (locks : Locks) : List Attempt :=
  if radius = 0 ∨ locks.size < 2 then []
  else
    let order := keyedOrder locks.size key
    (Ledger.takeTurns (pairLimit locks.size) (candidates torus radius key) order (.start locks)).1

/-- The history of the planning of a soup's epoch. -/
def Grid.attempts (g : Grid) (key : UInt64) : List Attempt :=
  Plan.attempts g.torus g.params.maxDist.toNat key g.locks

end TapeLife
