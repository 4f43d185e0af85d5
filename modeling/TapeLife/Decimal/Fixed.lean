import TapeLife.Decimal.Basic

/-!
# Decimal/Fixed — a set number of places

The exact value is rounded to the last place kept, a half to the even digit.  The sign stays even
if every digit kept is zero.
-/

namespace TapeLife

/-- A number with `places` digits behind the point. -/
def fixedText (places : Nat) : Binary → String
  | .nan => "NaN"
  | .infinite negative => signed negative "inf"
  | .finite negative mantissa exponent =>
    let ratio := Binary.scaleRatio (mantissa * Nat.pow 10 places) 1 exponent
    let units := roundRatio ratio.1 ratio.2 .even
    signed negative (String.ofList (Decimal.positional ⟨units, -(places : Int)⟩))

end TapeLife
