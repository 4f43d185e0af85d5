import TapeLife.Decimal.Basic
import TapeLife.Number.Single

/-!
# Decimal/Shortest — the fewest digits that read back

The decimals that round to a given binary number form an interval around it (`Interval`).  The
shortest text of the number is the coarsest decimal in that interval; among those of equal length,
the nearest.  Everything is exact: the interval and the number are counted in one unit, a power of
ten small enough for all of them to be whole.
-/

namespace TapeLife

/-- A number and the ends of the interval of reals that round to it, all in units of
`10 ^ exponent`. -/
structure Interval where
  low : Nat
  middle : Nat
  high : Nat
  /-- Whether the ends themselves round to the number. -/
  closed : Bool
  exponent : Int
deriving DecidableEq, Repr

namespace Interval

/-- Whether a count of units rounds to the number. -/
def holds (i : Interval) (units : Nat) : Bool :=
  if i.closed then i.low ≤ units && units ≤ i.high else i.low < units && units < i.high

/-- The interval of the number `mantissa · 2 ^ exponent` of a format.  Its ends are halfway to its
neighbours; the lower neighbour of a power of two is only half as far as the upper one. -/
def ofBinary (f : BinaryFormat) (mantissa : Nat) (exponent : Int) : Interval :=
  let narrow := mantissa = f.fractions ∧ f.leastExponent < exponent
  let quarter := exponent - 2
  let unit := if 0 ≤ quarter then Nat.pow 2 quarter.toNat else Nat.pow 5 (-quarter).toNat
  { low := (4 * mantissa - if narrow then 1 else 2) * unit
    middle := 4 * mantissa * unit
    high := (4 * mantissa + 2) * unit
    closed := mantissa % 2 = 0
    exponent := min 0 quarter }

/-- The nearer of the two multiples of `step` around the number, if either is in the interval. -/
def nearest? (i : Interval) (step : Nat) (tie : Tie) : Option Nat :=
  let below := i.middle / step
  let above := below + 1
  match i.holds (below * step), i.holds (above * step) with
  | true, true => some (roundRatio i.middle step tie)
  | true, false => some below
  | false, true => some above
  | false, false => none

/-- The coarsest decimal in the interval, trying steps of `10 ^ power` downwards. -/
def coarsest (i : Interval) (tie : Tie) : (power : Nat) → Decimal
  | 0 => ⟨i.middle, i.exponent⟩
  | power + 1 =>
    match i.nearest? (Nat.pow 10 (power + 1)) tie with
    | some count => ⟨count, i.exponent + (power + 1 : Nat)⟩
    | none => coarsest i tie power

end Interval

/-- The shortest decimal that reads back as a positive number of the format. -/
def Decimal.shortest (f : BinaryFormat) (tie : Tie) (mantissa : Nat) (exponent : Int) : Decimal :=
  let i := Interval.ofBinary f mantissa exponent
  (i.coarsest tie ((digits i.middle).length - 1)).trim

/-- A number of thirty-two bits in the fewest digits that read back. -/
def NumberStyle.render (style : NumberStyle) (x : Single) : String :=
  match x.value with
  | .nan => style.nan
  | .infinite negative => signed negative style.infinity
  | .finite negative 0 _ => signed negative (style.layout ⟨0, 0⟩)
  | .finite negative mantissa exponent =>
    signed negative (style.layout (.shortest .single style.tie mantissa exponent))

end TapeLife
