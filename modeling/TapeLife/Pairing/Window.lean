import TapeLife.Random.Mix
import TapeLife.Torus

/-!
# Pairing/Window — candidate partners around a cell

The window of a radius holds every offset of at most that many columns and rows, the cell itself
left out.  Its offsets are numbered row by row with the centre skipped (`windowOffset`), and a key
picks four numbers for every cell.
-/

namespace TapeLife

/-- Partners that a cell tries before it gives up for an epoch. -/
abbrev attemptsPerCell : Nat := 4

/-- The number of columns, and of rows, of a window. -/
def windowSide (radius : Nat) : Nat := 2 * radius + 1

/-- The number of offsets in a window, the centre left out. -/
def windowSize (radius : Nat) : Nat := windowSide radius * windowSide radius - 1

/-- The offset of a number below the window's size. -/
def windowOffset (radius number : Nat) : Int × Int :=
  let centre := radius * windowSide radius + radius
  let place := if centre ≤ number then number + 1 else number
  ((place % windowSide radius : Nat) - radius, (place / windowSide radius : Nat) - radius)

/-- The word that decides a cell's partner at an attempt. -/
def partnerWord (key : UInt64) (cell attempt : Nat) : UInt64 :=
  turnLeft key 17 ^^^ mix64 (UInt64.ofNat (cell * attemptsPerCell + attempt))

/-- The partner that a cell tries at an attempt; on a small torus it may be the cell itself. -/
def candidate (torus : Torus) (radius : Nat) (key : UInt64) (cell attempt : Nat) : Nat :=
  let number := (mix64 (partnerWord key cell attempt)).toNat % windowSize radius
  let offset := windowOffset radius number
  torus.shift cell offset.1 offset.2

/-- All partners that a cell may try, in order. -/
def candidates (torus : Torus) (radius : Nat) (key : UInt64) (cell : Nat) : List Nat :=
  (List.range attemptsPerCell).map (candidate torus radius key cell)

end TapeLife
