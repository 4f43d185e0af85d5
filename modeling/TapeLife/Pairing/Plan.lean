import TapeLife.Pairing.Locks
import TapeLife.Pairing.Order
import TapeLife.Pairing.Window

/-!
# Pairing/Plan — who meets whom in an epoch

Cells take turns in a shuffled order.  A cell that is still free claims the first of its candidates
that it can get; every candidate it could not get is abandoned for the epoch.  Turns end when a
quarter of the cells lead a pair.

A `Plan` keeps the pairs in the order in which they were formed.  They are executed stripe by
stripe, a stripe being chosen by the places of both cells (`Pair.stripe`).
-/

namespace TapeLife

/-- Stripes over which pairs are spread. -/
abbrev stripeCount : Nat := 10

/-- The stripe of a pair on a grid of a width. -/
def Pair.stripe (width : Nat) (pair : Pair) : Nat :=
  let word := fun i => packHalves (UInt64.ofNat (i % width)) (UInt64.ofNat (i / width))
  (mix64 (mix64 (word pair.initiator) ^^^ word pair.partner)).toNat % stripeCount

/-- The pairs of one epoch. -/
structure Plan where
  width : Nat
  /-- The pairs, in the order in which they were formed. -/
  formed : List Pair
  /-- The candidates that were tried in vain, in the order in which they were tried. -/
  abandoned : List Pair
deriving DecidableEq

namespace Plan

/-- The pairs of one stripe, in the order in which they were formed. -/
def stripe (plan : Plan) (k : Nat) : List Pair :=
  plan.formed.filter fun pair => pair.stripe plan.width = k

/-- All stripes. -/
def stripes (plan : Plan) : List (List Pair) := (List.range stripeCount).map plan.stripe

/-- The pairs, stripe by stripe. -/
def pairs (plan : Plan) : List Pair := plan.stripes.flatten

/-- Whether a cell is in a pair. -/
def hasMember (plan : Plan) (i : Nat) : Bool :=
  plan.formed.any fun pair => pair.initiator == i || pair.partner == i

/-- For every cell below `n`, whether it is in a pair. -/
def membership (plan : Plan) (n : Nat) : Array Bool :=
  plan.formed.foldl
    (fun member pair => (member.setIfInBounds pair.initiator true).setIfInBounds pair.partner true)
    (Array.replicate n false)

end Plan

/-- A plan in the making. -/
structure Planning where
  locks : Locks
  formed : Array Pair
  abandoned : Array Pair

namespace Planning

/-- Claims the first of the candidates that can be claimed; those before it are abandoned.  A cell
is no candidate for itself. -/
def pairUp (p : Planning) (cell : Nat) : List Nat → Planning
  | [] => p
  | other :: rest =>
    if other = cell then pairUp p cell rest
    else if p.locks.isClaimable cell other then
      { p with locks := p.locks.hold cell other, formed := p.formed.push ⟨cell, other⟩ }
    else pairUp { p with abandoned := p.abandoned.push ⟨cell, other⟩ } cell rest

/-- A cell's turn: nothing happens when enough pairs exist or the cell is taken. -/
def turn (limit : Nat) (partners : Nat → List Nat) (p : Planning) (cell : Nat) : Planning :=
  if limit ≤ p.formed.size || !p.locks.isFree cell then p
  else p.pairUp cell (partners cell)

end Planning

/-- The largest number of pairs on a grid of `n` cells. -/
def pairLimit (n : Nat) : Nat := max (n / 4) 1

/-- Plans an epoch: the plan, and the locks with all its cells taken.  Cells that are taken before
are left alone, and a radius of zero leaves everybody alone. -/
def Plan.make (torus : Torus) (radius : Nat) (key : UInt64) (locks : Locks) : Plan × Locks :=
  if radius = 0 ∨ locks.size < 2 then (⟨torus.width, [], []⟩, locks)
  else
    let limit := pairLimit locks.size
    let order := keyedOrder locks.size key
    let p := order.foldl (Planning.turn limit (candidates torus radius key)) ⟨locks, #[], #[]⟩
    (⟨torus.width, p.formed.toList, p.abandoned.toList⟩, p.locks)

/-- The key of an epoch on a grid, from its number and shape alone. -/
def shapeKey (epoch width height : UInt32) : UInt64 :=
  mix64 (mix64 epoch.toUInt64 ^^^ packHalves width.toUInt64 height.toUInt64)

/-- The key of an epoch: fixed by number and shape, or stirred with entropy from outside. -/
def epochKey (fixed : Bool) (epoch width height : UInt32) (entropy : UInt64) : UInt64 :=
  let key := shapeKey epoch width height
  if fixed then key else mix64 (key ^^^ entropy)

end TapeLife
