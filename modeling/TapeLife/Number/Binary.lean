import TapeLife.Number.Rounding

/-!
# Number/Binary — floating-point numbers as exact values

A `Binary` is a number of the form `± mantissa · 2 ^ exponent`, an infinity, or no number at all.
A `BinaryFormat` says which of them have a bit pattern: `ofBits` and `toBits` go between the two,
and `ofRatio` rounds a positive quotient to the nearest number of a format, halves to the even
mantissa.
-/

namespace TapeLife

/-- A floating-point number, read exactly. -/
inductive Binary
  | nan
  | infinite (negative : Bool)
  /-- The value `mantissa · 2 ^ exponent`, below zero if `negative`; zero keeps its sign. -/
  | finite (negative : Bool) (mantissa : Nat) (exponent : Int)
deriving DecidableEq, Repr

/-- The layout of a bit pattern: sign, exponent field, fraction field. -/
structure BinaryFormat where
  fractionBits : Nat
  exponentBits : Nat

namespace BinaryFormat

/-- Numbers of thirty-two bits. -/
def single : BinaryFormat := ⟨23, 8⟩

/-- Numbers of sixty-four bits. -/
def double : BinaryFormat := ⟨52, 11⟩

/-- The number of values of the fraction field. -/
def fractions (f : BinaryFormat) : Nat := Nat.pow 2 f.fractionBits

/-- The number of values of the exponent field. -/
def fields (f : BinaryFormat) : Nat := Nat.pow 2 f.exponentBits

/-- The exponent of the smallest step of the format. -/
def leastExponent (f : BinaryFormat) : Int := 2 - (f.fields / 2 : Nat) - f.fractionBits

/-- The exponent of the largest finite numbers of the format. -/
def greatestExponent (f : BinaryFormat) : Int := f.leastExponent + ((f.fields : Int) - 3)

end BinaryFormat

namespace Binary

/-- The number that a bit pattern stands for. -/
def ofBits (f : BinaryFormat) (bits : Nat) : Binary :=
  let negative := bits / f.fractions / f.fields % 2 = 1
  let field := bits / f.fractions % f.fields
  let fraction := bits % f.fractions
  if field + 1 = f.fields then
    if fraction = 0 then .infinite negative else .nan
  else if field = 0 then .finite negative fraction f.leastExponent
  else .finite negative (f.fractions + fraction) (f.leastExponent + (field - 1))

/-- A bit pattern from its parts.  A fraction that is too large for its field counts the exponent
field up. -/
def pattern (f : BinaryFormat) (negative : Bool) (field fraction : Nat) : Nat :=
  (negative.toNat * f.fields + field) * f.fractions + fraction

/-- The bit pattern of a number that the format can hold.  The mantissa's leading bit, where there
is one, falls on the lowest bit of the exponent field and so counts it up by one. -/
def toBits (f : BinaryFormat) : Binary → Nat
  | .nan => pattern f false (f.fields - 1) (f.fractions / 2)
  | .infinite negative => pattern f negative (f.fields - 1) 0
  | .finite negative mantissa exponent =>
    pattern f negative (exponent - f.leastExponent).toNat mantissa

/-- `num / den` times a power of two, as a quotient. -/
def scaleRatio (num den : Nat) (power : Int) : Nat × Nat :=
  if 0 ≤ power then (num * Nat.pow 2 power.toNat, den)
  else (num, den * Nat.pow 2 (-power).toNat)

/-- The exponent of the leading bit of a positive quotient. -/
def leadingExponent (num den : Nat) : Int :=
  let guess : Int := (num.log2 : Int) - den.log2
  let scaled := scaleRatio num den (-guess)
  if scaled.2 ≤ scaled.1 then guess else guess - 1

/-- The number of the format nearest to a positive quotient; beyond the largest, infinity. -/
def ofRatio (f : BinaryFormat) (negative : Bool) (num den : Nat) : Binary :=
  let exponent := max (leadingExponent num den - f.fractionBits) f.leastExponent
  let scaled := scaleRatio num den (-exponent)
  let mantissa := roundRatio scaled.1 scaled.2 .even
  let (mantissa, exponent) :=
    if mantissa = 2 * f.fractions then (f.fractions, exponent + 1)
    else (mantissa, exponent)
  if f.greatestExponent < exponent then .infinite negative
  else .finite negative mantissa exponent

/-- The nearest number of a format. -/
def roundTo (f : BinaryFormat) : Binary → Binary
  | .finite negative mantissa exponent =>
    if mantissa = 0 then .finite negative 0 f.leastExponent
    else
      let ratio := scaleRatio mantissa 1 exponent
      ofRatio f negative ratio.1 ratio.2
  | other => other

/-- The exact value of a machine float. -/
def ofFloat (x : Float) : Binary := ofBits .double x.toBits.toNat

/-- Whether the number is neither infinite nor undefined. -/
def isFinite : Binary → Bool
  | .finite .. => true
  | _ => false

end Binary

end TapeLife
