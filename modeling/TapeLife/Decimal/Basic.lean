import TapeLife.Number.Binary

/-!
# Decimal/Basic — decimal numbers and their layout

A `Decimal` is `significand · 10 ^ exponent`.  It is laid out positionally, or with an exponent
after its first digit; which of the two, and how whole numbers end, is a `NumberStyle` of the
document that is written.
-/

namespace TapeLife

/-- The digits of a natural number in base ten. -/
def digits (n : Nat) : List Char := Nat.toDigits 10 n

/-- A natural number in base ten. -/
def decimalText (n : Nat) : String := String.ofList (digits n)

/-- The number `significand · 10 ^ exponent`. -/
structure Decimal where
  significand : Nat
  exponent : Int
deriving DecidableEq, Repr

namespace Decimal

/-- The same number without trailing zeros in its significand. -/
def trim (d : Decimal) : Decimal :=
  if h : d.significand ≠ 0 ∧ d.significand % 10 = 0 then
    trim ⟨d.significand / 10, d.exponent + 1⟩
  else d
termination_by d.significand
decreasing_by exact Nat.div_lt_self (Nat.pos_of_ne_zero h.1) (by decide)

/-- The exponent of the first digit. -/
def scale (d : Decimal) : Int := d.exponent + ((digits d.significand).length - 1 : Nat)

/-- All digits in their places, with a point if any stand behind it. -/
def positional (d : Decimal) : List Char :=
  let ds := digits d.significand
  if 0 ≤ d.exponent then ds ++ List.replicate d.exponent.toNat '0'
  else
    let behind := (-d.exponent).toNat
    let padded := List.replicate (behind + 1 - ds.length) '0' ++ ds
    padded.take (padded.length - behind) ++ '.' :: padded.drop (padded.length - behind)

/-- One digit, a point if more follow, and the power of ten. -/
def exponential (d : Decimal) : List Char :=
  let power := d.scale
  let sign := if power < 0 then ['-'] else []
  let tail := 'e' :: sign ++ digits power.natAbs
  match digits d.significand with
  | [] => tail
  | [first] => first :: tail
  | first :: more => first :: '.' :: more ++ tail

end Decimal

/-- How a document writes floating-point numbers. -/
structure NumberStyle where
  /-- Which of two equally near digit strings is taken. -/
  tie : Tie
  /-- Whether a number whose first digit has this power of ten is laid out positionally. -/
  isPositional : Int → Bool
  /-- What a whole number ends with when it is laid out positionally. -/
  wholeEnd : String
  nan : String
  infinity : String

/-- A number without places behind the point gets the style's ending. -/
def NumberStyle.layout (style : NumberStyle) (d : Decimal) : String :=
  if style.isPositional d.scale then
    String.ofList d.positional ++ (if 0 ≤ d.exponent then style.wholeEnd else "")
  else String.ofList d.exponential

/-- A minus sign in front of numbers below zero. -/
def signed (negative : Bool) (text : String) : String := if negative then "-" ++ text else text

end TapeLife
