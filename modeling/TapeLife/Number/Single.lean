import TapeLife.Number.Binary

/-!
# Number/Single — thirty-two-bit numbers by their bit pattern

Rates are stored, compared and printed as thirty-two-bit floating-point numbers.  A `Single` is the
bit pattern, so two rates are the same value of this type only if they are stored alike; the
comparison of the numbers that the patterns stand for is `Single.same`.
-/

namespace TapeLife

/-- The bit pattern of a thirty-two-bit number. -/
structure Single where
  bits : UInt32
deriving DecidableEq, Repr

namespace Single

/-- The number that the pattern stands for. -/
def value (x : Single) : Binary := .ofBits .single x.bits.toNat

/-- The pattern of a number after rounding it to thirty-two bits. -/
def ofBinary (x : Binary) : Single := ⟨UInt32.ofNat ((x.roundTo .single).toBits .single)⟩

/-- Whether two patterns stand for the same number: the two zeros do, undefined ones never. -/
def same (x y : Single) : Bool :=
  match x.value, y.value with
  | .nan, _ | _, .nan => false
  | .finite _ 0 _, .finite _ 0 _ => true
  | _, _ => x.bits == y.bits

/-- Whether the number lies between zero and one, both included. -/
def isFraction (x : Single) : Bool :=
  match x.value with
  | .finite negative mantissa exponent =>
    let ratio := Binary.scaleRatio mantissa 1 exponent
    mantissa == 0 || (!negative && ratio.1 ≤ ratio.2)
  | _ => false

end Single

end TapeLife
