import Mathlib.Algebra.Order.Field.Power
import Mathlib.Algebra.Order.Floor.Semiring
import Mathlib.Algebra.Order.Monoid.Unbundled.WithTop
import Mathlib.Data.Rat.Floor
import Mathlib.Tactic.FieldSimp
import Mathlib.Tactic.Linarith
import Mathlib.Tactic.Positivity
import TapeLife.Number.Single

/-!
# Proofs/Number/Extended — the number that a bit pattern stands for

    bits ──value──▸ ± mantissa · 2 ^ exponent ──number?──▸ ⊥ < … < rationals < … < ⊤

`number?` reads a floating-point number as a rational number or one of the two infinities, so that
two of them can be compared; what is no number is read as nothing.  The quotients that the
arithmetic of whole numbers works with are read as rationals too: scaling multiplies by the power of
two (`scaleRatio_div`), and rounding a half up is the integral part of half a unit more
(`roundRatio_up_eq_floor`).
-/

namespace TapeLife

/-- Rational numbers and the two infinities, in their order. -/
abbrev Extended := WithBot (WithTop ℚ)

namespace Extended

variable {p q : ℚ}

theorem coe_le_coe : ((p : WithTop ℚ) : Extended) ≤ (q : WithTop ℚ) ↔ p ≤ q :=
  WithBot.coe_le_coe.trans WithTop.coe_le_coe

theorem coe_lt_coe : ((p : WithTop ℚ) : Extended) < (q : WithTop ℚ) ↔ p < q :=
  WithBot.coe_lt_coe.trans WithTop.coe_lt_coe

end Extended

namespace Binary

/-- The rational number `± mantissa · 2 ^ exponent`. -/
def rational (negative : Bool) (mantissa : Nat) (exponent : Int) : ℚ :=
  (if negative then -1 else 1) * (mantissa * 2 ^ exponent)

/-- The number that is meant, if it is one. -/
def number? : Binary → Option Extended
  | .nan => none
  | .infinite negative => some (if negative then ⊥ else ⊤)
  | .finite negative mantissa exponent => some (rational negative mantissa exponent : WithTop ℚ)

theorem rational_false (mantissa : Nat) (exponent : Int) :
    rational false mantissa exponent = mantissa * 2 ^ exponent := one_mul _

theorem rational_true_nonpos (mantissa : Nat) (exponent : Int) :
    rational true mantissa exponent ≤ 0 := by
  have hpos : (0 : ℚ) ≤ mantissa * 2 ^ exponent := by positivity
  simpa [rational] using hpos

/-! ## Quotients of whole numbers -/

theorem scaleRatio_den_pos {num den : Nat} (h : 0 < den) (power : Int) :
    0 < (scaleRatio num den power).2 := by
  rw [scaleRatio]
  split
  · exact h
  · exact Nat.mul_pos h (Nat.pow_pos (by decide))

/-- **Scaling a quotient multiplies it by a power of two.** -/
theorem scaleRatio_div (num den : Nat) (power : Int) :
    ((scaleRatio num den power).1 : ℚ) / (scaleRatio num den power).2
      = num / den * 2 ^ power := by
  rw [scaleRatio]
  split
  · rename_i hpower
    obtain ⟨n, rfl⟩ := Int.eq_ofNat_of_zero_le hpower
    change (((num * 2 ^ n : ℕ) : ℚ)) / den = num / den * 2 ^ (n : ℤ)
    rw [zpow_natCast, Nat.cast_mul, Nat.cast_pow, Nat.cast_ofNat, mul_div_right_comm]
  · rename_i hpower
    obtain ⟨n, hn⟩ := Int.eq_ofNat_of_zero_le (by omega : 0 ≤ -power)
    obtain rfl : power = -(n : ℤ) := by omega
    rw [neg_neg]
    change (num : ℚ) / ((den * 2 ^ n : ℕ) : ℚ) = num / den * 2 ^ (-(n : ℤ))
    rw [zpow_neg, zpow_natCast, Nat.cast_mul, Nat.cast_pow, Nat.cast_ofNat, div_mul_eq_div_div,
      div_eq_mul_inv _ (2 ^ n : ℚ)]

end Binary

/-- A half is rounded up, so the next half is not reached. -/
theorem lt_roundRatio_up {den : Nat} (num : Nat) (h : 0 < den) :
    2 * num < 2 * (den * roundRatio num den .up) + den := by
  have hsplit := Nat.div_add_mod num den
  have hlt := Nat.mod_lt num h
  have hup : den * (num / den + 1) = den * (num / den) + den := Nat.mul_succ ..
  simp only [roundRatio]
  generalize num / den = q at *
  split
  · omega
  · split <;> omega

/-- **Rounding a half up** takes the whole part of half a unit more. -/
theorem roundRatio_up_eq_floor {den : Nat} (num : Nat) (h : 0 < den) :
    roundRatio num den .up = ⌊(num : ℚ) / den + 1 / 2⌋₊ := by
  obtain ⟨hlow, -⟩ := roundRatio_near num .up h
  have hhigh := lt_roundRatio_up num h
  have hden : (0 : ℚ) < den := Nat.cast_pos.mpr h
  have hdiv : (num : ℚ) / den + 1 / 2 = (2 * num + den) / (2 * den) := by field_simp
  refine ((Nat.floor_eq_iff (by positivity)).mpr ?_).symm
  rw [hdiv, le_div_iff₀ (by positivity), div_lt_iff₀ (by positivity)]
  generalize roundRatio num den .up = rounded at *
  have hlow' : (2 * (den * rounded) : ℚ) ≤ 2 * num + den := by exact_mod_cast hlow
  have hhigh' : (2 * num : ℚ) < 2 * (den * rounded) + den := by exact_mod_cast hhigh
  constructor <;> linarith

/-! ## Bit patterns -/

namespace Single

/-- The number that a pattern stands for, if it is one. -/
def number? (x : Single) : Option Extended := x.value.number?

/-- Patterns that stand for the same number stand for a number, the two zeros among them. -/
theorem exists_number?_of_same {x y : Single} (h : x.same y = true) :
    ∃ v, x.number? = some v ∧ y.number? = some v := by
  have hzero : ∀ negative exponent, Binary.rational negative 0 exponent = 0 := by
    simp [Binary.rational]
  rw [same] at h
  split at h
  · cases h
  · cases h
  · rename_i hx hy
    exact ⟨0, by rw [number?, hx, Binary.number?, hzero]; rfl,
      by rw [number?, hy, Binary.number?, hzero]; rfl⟩
  · rename_i hx _ _
    obtain rfl : x = y := congrArg Single.mk (beq_iff_eq.mp h)
    rcases hvalue : x.value with _ | negative | _
    · exact absurd hvalue hx
    all_goals exact ⟨_, by rw [number?, hvalue]; rfl, by rw [number?, hvalue]; rfl⟩

/-- The mantissa of a number of thirty-two bits has twenty-four. -/
theorem mantissa_lt {x : Single} {negative : Bool} {mantissa : Nat} {exponent : Int}
    (h : x.value = .finite negative mantissa exponent) : mantissa < 2 ^ 24 := by
  have hfraction : x.bits.toNat % BinaryFormat.single.fractions < 2 ^ 23 :=
    Nat.mod_lt _ (by decide)
  have hfractions : BinaryFormat.single.fractions = 2 ^ 23 := rfl
  rw [value, Binary.ofBits] at h
  split at h
  · split at h <;> cases h
  · split at h <;> cases h <;> omega

end Single

end TapeLife
