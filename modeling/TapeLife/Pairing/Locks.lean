/-!
# Pairing/Locks — claiming two cells at once

A claim takes both cells of a pair or neither.  It fails on a cell that is taken and on a pair of a
cell with itself.
-/

namespace TapeLife

/-- Two cells that interact, by number; the initiator's program drives the run. -/
structure Pair where
  initiator : Nat
  partner : Nat
deriving DecidableEq, Repr

/-- For every cell, whether it is taken. -/
abbrev Locks := Array Bool

namespace Locks

/-- Whether a cell exists and is not taken. -/
def isFree (locks : Locks) (i : Nat) : Bool := locks[i]? == some false

/-- Whether two cells can be claimed together. -/
def isClaimable (locks : Locks) (a b : Nat) : Bool := a != b && locks.isFree a && locks.isFree b

/-- Both cells taken. -/
def hold (locks : Locks) (a b : Nat) : Locks :=
  (locks.setIfInBounds a true).setIfInBounds b true

/-- Takes both cells, or nothing. -/
def claim (locks : Locks) (a b : Nat) : Option Locks :=
  if locks.isClaimable a b then some (locks.hold a b) else none

/-- Gives back both cells of a pair. -/
def release (locks : Locks) (pair : Pair) : Locks :=
  (locks.setIfInBounds pair.initiator false).setIfInBounds pair.partner false

/-- The cells that are taken, in order. -/
def taken (locks : Locks) : List Nat :=
  (List.range locks.size).filter fun i => locks[i]? == some true

end Locks

end TapeLife
