import TapeLife.Pairing.Locks

/-!
# Pairing/Holders — who holds which locks

Any number of clients claim pairs of cells and release what they hold, in any order.  A `Ledger`
keeps the locks and the pairs that are held; `Ledger.Reachable` are the ledgers that such a history
can lead to from locks of which nobody holds any.
-/

namespace TapeLife

/-- Locks, and the pairs whose claims were granted and that were not released since. -/
structure Ledger where
  locks : Locks
  held : List Pair

namespace Ledger

/-- Nobody holds anything; cells may be taken all the same. -/
def start (locks : Locks) : Ledger := ⟨locks, []⟩

/-- Asks for two cells: the ledger afterwards, and whether they were granted. -/
def claim (ledger : Ledger) (a b : Nat) : Ledger × Bool :=
  match ledger.locks.claim a b with
  | some locks => (⟨locks, ⟨a, b⟩ :: ledger.held⟩, true)
  | none => (ledger, false)

/-- Gives back a pair that is held. -/
def release (ledger : Ledger) (pair : Pair) : Ledger :=
  ⟨ledger.locks.release pair, ledger.held.erase pair⟩

/-- What clients can lead to. -/
inductive Reachable (locks : Locks) : Ledger → Prop
  | start : Reachable locks (start locks)
  | claim {ledger : Ledger} (a b : Nat) :
      Reachable locks ledger → Reachable locks (ledger.claim a b).1
  | release {ledger : Ledger} {pair : Pair} :
      pair ∈ ledger.held → Reachable locks ledger → Reachable locks (ledger.release pair)

end Ledger

end TapeLife
