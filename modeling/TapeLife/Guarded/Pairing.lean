import TapeLife.Guarded.Basic
import TapeLife.Pairing.Plan
import TapeLife.Params

/-!
# Guarded/Pairing — planning an epoch on words and arrays

The planning of `Pairing/Plan`, done as a machine does it: the order of the turns is an array that
is shuffled in place, a partner is found by remainders of words with and without a sign, a claim
reads and writes locks, and a pair is pushed onto the buffer of its stripe.  Every operation is
checked.
-/

namespace TapeLife

namespace Guarded

/-! ## The order of turns -/

/-- Settles the places from `last` down to the second. -/
def settle (key : UInt64) : (last : Nat) → Array Nat → Guarded (Array Nat)
  | 0, order => .ok order
  | i + 1, order => do
    let j ← rem (mix64 (key ^^^ mix64 (UInt64.ofNat (i + 1)))).toNat (← add (i + 1) 1)
    settle key i (← exchange order (i + 1) j)

/-- The numbers below `n` in an order drawn from a key. -/
def order (n : Nat) (key : UInt64) : Guarded (Array Nat) := settle key (n - 1) (Array.range n)

/-! ## Partners -/

/-- The offset of a place in a window with so many columns. -/
def offsetAt (radius side place : Nat) : Guarded (Int × Int) := do
  let dx ← subSigned (← signed (← rem place side)) (← signed radius)
  let dy ← subSigned (← signed (← quot place side)) (← signed radius)
  return (dx, dy)

/-- The offset of the partner that a cell tries at an attempt. -/
def offset (radius : Nat) (key : UInt64) (cell attempt : Nat) : Guarded (Int × Int) := do
  let side ← add (← mul 2 radius) 1
  let centre ← add (← mul radius side) radius
  let number ← add (← mul cell attemptsPerCell) attempt
  let draw := mix64 (turnLeft key 17 ^^^ mix64 (UInt64.ofNat number))
  let number ← rem draw.toNat (← sub (← mul side side) 1)
  offsetAt radius side (← if centre ≤ number then add number 1 else pure number)

/-- The cell at an offset from a column and a row. -/
def shift (torus : Torus) (x y dx dy : Int) : Guarded Nat := do
  let nx ← unsigned (← remSigned (← addSigned x dx) (← signed torus.width))
  let ny ← unsigned (← remSigned (← addSigned y dy) (← signed torus.height))
  add (← mul ny torus.width) nx

/-- The distance of two cells. -/
def distance (torus : Torus) (a b : Nat) : Guarded Nat := do
  let xa ← rem a torus.width
  let ya ← quot a torus.width
  let xb ← rem b torus.width
  let yb ← quot b torus.width
  let dx := max xa xb - min xa xb
  let dy := max ya yb - min ya yb
  return max (min dx (← sub torus.width dx)) (min dy (← sub torus.height dy))

/-! ## Claims and buffers -/

/-- Takes two cells, or neither, and says which. -/
def claim (locks : Locks) (a b : Nat) : Guarded (Locks × Bool) := do
  if a = b then return (locks, false)
  if ← read locks a then return (locks, false)
  if ← read locks b then return (locks, false)
  return (← write (← write locks a true) b true, true)

/-- The buffer of a pair. -/
def stripe (width : Nat) (pair : Pair) : Guarded Nat := do
  let a := packHalves (UInt64.ofNat (← rem pair.initiator width))
    (UInt64.ofNat (← quot pair.initiator width))
  let b := packHalves (UInt64.ofNat (← rem pair.partner width))
    (UInt64.ofNat (← quot pair.partner width))
  rem (mix64 (mix64 a ^^^ b)).toNat stripeCount

/-- Pairs in buffers. -/
abbrev Buffers := Array (List Pair)

/-- The buffers with one more pair. -/
def push (width : Nat) (buffers : Buffers) (pair : Pair) : Guarded Buffers := do
  let k ← stripe width pair
  write buffers k ((← read buffers k) ++ [pair])

/-! ## Turns -/

/-- A plan in the making. -/
structure Draft where
  locks : Locks
  buffers : Buffers
  /-- How many pairs there are. -/
  formed : Nat
  /-- How many claims were refused. -/
  dropped : Nat
deriving DecidableEq

/-- Nothing planned yet. -/
def Draft.start (locks : Locks) : Draft := ⟨locks, Array.replicate stripeCount [], 0, 0⟩

/-- A cell at a column and a row tries its partners. -/
def attempt (torus : Torus) (radius : Nat) (key : UInt64) (cell : Nat) (x y : Int) :
    List Nat → Draft → Guarded Draft
  | [], draft => .ok draft
  | number :: rest, draft => do
    let (dx, dy) ← offset radius key cell number
    let other ← shift torus x y dx dy
    if other = cell then attempt torus radius key cell x y rest draft
    else
      let (locks, granted) ← claim draft.locks cell other
      if granted then
        let buffers ← push torus.width draft.buffers ⟨cell, other⟩
        return { draft with locks, buffers, formed := ← add draft.formed 1 }
      else
        attempt torus radius key cell x y rest { draft with dropped := ← add draft.dropped 1 }

/-- The cells take their turns, until there are enough pairs. -/
def turns (torus : Torus) (radius : Nat) (key : UInt64) (limit : Nat) :
    List Nat → Draft → Guarded Draft
  | [], draft => .ok draft
  | cell :: order, draft => do
    if limit ≤ draft.formed then return draft
    if ← read draft.locks cell then turns torus radius key limit order draft
    else
      let x ← signed (← rem cell torus.width)
      let y ← signed (← quot cell torus.width)
      let draft ← attempt torus radius key cell x y (List.range attemptsPerCell) draft
      turns torus radius key limit order draft

/-- Plans an epoch. -/
def plan (torus : Torus) (radius : Nat) (key : UInt64) (locks : Locks) : Guarded Draft := do
  let area ← mul torus.width torus.height
  if locks.size ≠ area then throw .mismatch
  if radius = 0 ∨ locks.size < 2 then return .start locks
  let order ← order locks.size key
  let limit := max (← quot locks.size 4) 1
  turns torus radius key limit order.toList (.start locks)

/-- Marks the cells of pairs. -/
def mark : List Pair → Array Bool → Guarded (Array Bool)
  | [], member => .ok member
  | pair :: pairs, member => do
    mark pairs (← write (← write member pair.initiator true) pair.partner true)

/-- For every cell below `n`, whether it is in a pair. -/
def membership (buffers : Buffers) (n : Nat) : Guarded (Array Bool) :=
  mark buffers.toList.flatten (Array.replicate n false)

end Guarded

end TapeLife
