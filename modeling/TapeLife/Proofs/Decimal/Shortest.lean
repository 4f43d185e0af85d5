import TapeLife.Decimal.Shortest
import TapeLife.Proofs.Number.Nearest

/-!
# Proofs/Decimal/Shortest — the fewest digits are a nearest multiple

    step 10^p     ┆─────────┆─────────┆─────────┆─────────┆
    interval              (─────── M·2^q ───────)
    taken                           ┆

The shortest decimal of a number rounds to it (`Decimal.shortest_spec`): it is found in the interval
of what does, counted in units that are small enough (`Interval.holds_iff`).  It is a multiple of the
step at which it is found, and if the number is in the middle of its interval no other multiple is
nearer to the number (`Interval.nearest?_spec`).
-/

namespace TapeLife

theorem ten_zpow_pos (k : ℤ) : (0 : ℚ) < 10 ^ k := zpow_pos (by norm_num) k

namespace Decimal

/-- The rational number `significand · 10 ^ exponent`. -/
def value (d : Decimal) : ℚ := d.significand * 10 ^ d.exponent

theorem value_trim (d : Decimal) : d.trim.value = d.value := by
  fun_induction trim d with
  | case1 d h ih =>
    have hten : (d.significand : ℚ) = (d.significand / 10 : ℕ) * 10 := by
      exact_mod_cast (Nat.div_mul_cancel (Nat.dvd_of_mod_eq_zero h.2)).symm
    rw [ih, value, value, hten, zpow_add_one₀ (by norm_num)]
    ring
  | case2 => rfl

end Decimal

/-! ## The interval of a number -/

namespace Interval

open Binary

variable {f : BinaryFormat} {mantissa units : ℕ} {exponent : ℤ} {i : Interval} {tie : Tie}

/-- A unit of an interval is a quarter of a step of the number. -/
theorem unit_value (quarter : ℤ) :
    ((if 0 ≤ quarter then Nat.pow 2 quarter.toNat else Nat.pow 5 (-quarter).toNat : ℕ) : ℚ)
      * 10 ^ min 0 quarter = 2 ^ quarter := by
  split
  · rename_i h
    obtain ⟨n, rfl⟩ := Int.eq_ofNat_of_zero_le h
    change ((2 ^ n : ℕ) : ℚ) * 10 ^ min 0 (n : ℤ) = 2 ^ (n : ℤ)
    rw [min_eq_left h, zpow_zero, mul_one, zpow_natCast]
    norm_cast
  · rename_i h
    obtain ⟨n, hn⟩ := Int.eq_ofNat_of_zero_le (by omega : 0 ≤ -quarter)
    obtain rfl : quarter = -(n : ℤ) := by omega
    change ((5 ^ (- -(n : ℤ)).toNat : ℕ) : ℚ) * 10 ^ min 0 (-(n : ℤ)) = 2 ^ (-(n : ℤ))
    rw [min_eq_right (by omega), neg_neg, Int.toNat_natCast, zpow_neg, zpow_neg, zpow_natCast,
      zpow_natCast, show (10 : ℚ) = 5 * 2 by norm_num, mul_pow, mul_inv, ← mul_assoc]
    push_cast
    rw [mul_inv_cancel₀ (by positivity), one_mul]

/-- The number itself, and the ends of its interval, in units. -/
theorem ofBinary_value (f : BinaryFormat) (hmantissa : 0 < mantissa) (exponent : ℤ) :
    let i := ofBinary f mantissa exponent
    (i.low : ℚ) * 10 ^ i.exponent = (mantissa - gapBelow f mantissa exponent) * 2 ^ exponent ∧
      (i.middle : ℚ) * 10 ^ i.exponent = mantissa * 2 ^ exponent ∧
      (i.high : ℚ) * 10 ^ i.exponent = (mantissa + 1 / 2) * 2 ^ exponent := by
  have hunit := unit_value (exponent - 2)
  have hquarter := Binary.zpow_eq_four_quarters exponent
  simp only [ofBinary]
  generalize (if 0 ≤ exponent - 2 then _ else _ : ℕ) = unit at *
  refine ⟨?_, ?_, ?_⟩
  · rw [Nat.cast_mul, mul_assoc, hunit, hquarter, gapBelow]
    split
    · rw [Nat.cast_sub (by omega)]
      push_cast
      ring
    · rw [Nat.cast_sub (by omega)]
      push_cast
      ring
  · rw [Nat.cast_mul, mul_assoc, hunit, hquarter]
    push_cast
    ring
  · rw [Nat.cast_mul, mul_assoc, hunit, hquarter]
    push_cast
    ring

/-- **What an interval holds is what rounds to the number.** -/
theorem holds_iff (hmantissa : 0 < mantissa) :
    (ofBinary f mantissa exponent).holds units = true ↔
      RoundsTo f mantissa exponent (units * 10 ^ (ofBinary f mantissa exponent).exponent) := by
  obtain ⟨hlow, -, hhigh⟩ := ofBinary_value f hmantissa exponent
  have hten := ten_zpow_pos (ofBinary f mantissa exponent).exponent
  have hclosed : (ofBinary f mantissa exponent).closed = decide (mantissa % 2 = 0) := rfl
  rw [holds, hclosed]
  generalize ofBinary f mantissa exponent = i at *
  have hle {a b : ℕ} : (a : ℚ) * 10 ^ i.exponent ≤ b * 10 ^ i.exponent ↔ a ≤ b := by
    rw [mul_le_mul_iff_left₀ hten, Nat.cast_le]
  have hlt {a b : ℕ} : (a : ℚ) * 10 ^ i.exponent < b * 10 ^ i.exponent ↔ a < b := by
    rw [mul_lt_mul_iff_left₀ hten, Nat.cast_lt]
  constructor
  · intro h
    split at h <;> simp only [Bool.and_eq_true, decide_eq_true_iff] at h <;>
      rename_i heven <;> rw [decide_eq_true_iff] at heven
    · exact ⟨hlow ▸ hle.mpr h.1, hhigh ▸ hle.mpr h.2, .inl heven⟩
    · exact ⟨hlow ▸ hle.mpr h.1.le, hhigh ▸ hle.mpr h.2.le,
        .inr ⟨hlow ▸ hlt.mpr h.1, hhigh ▸ hlt.mpr h.2⟩⟩
  · rintro ⟨hlow', hhigh', hinside⟩
    rw [← hlow, hle] at hlow'
    rw [← hhigh, hle] at hhigh'
    rw [← hlow, ← hhigh, hlt, hlt] at hinside
    split <;> simp only [Bool.and_eq_true, decide_eq_true_iff]
    · exact ⟨hlow', hhigh'⟩
    · rename_i hodd
      exact hinside.resolve_left (by simpa using hodd)

/-! ## The multiple that is taken -/

/-- The number is in its interval, and in the middle of it. -/
structure IsCentred (i : Interval) : Prop where
  low_le : i.low ≤ i.middle
  symmetric : i.low + i.high = 2 * i.middle

/-- Above the middle, what is left out is at least as far from it as what is held below. -/
theorem IsCentred.le_add (hi : i.IsCentred) {a b : ℕ} (ha : i.holds a = true)
    (hb : i.holds b = false) (hle : i.middle ≤ b) : 2 * i.middle ≤ a + b := by
  obtain ⟨hlow, hsymmetric⟩ := hi
  rw [holds] at ha hb
  split at ha <;> rename_i hclosed <;> simp [hclosed] at ha hb <;> omega

/-- Below the middle, what is left out is at least as far from it as what is held above. -/
theorem IsCentred.add_le (hi : i.IsCentred) {a b : ℕ} (ha : i.holds a = true)
    (hb : i.holds b = false) (hle : b ≤ i.middle) : a + b ≤ 2 * i.middle := by
  obtain ⟨hlow, hsymmetric⟩ := hi
  rw [holds] at ha hb
  split at ha <;> rename_i hclosed <;> simp [hclosed] at ha hb <;> omega

theorem roundRatio_cases (num den : ℕ) (tie : Tie) :
    roundRatio num den tie = num / den ∨ roundRatio num den tie = num / den + 1 := by
  cases tie <;> simp only [roundRatio] <;> split_ifs <;> simp

/-- **The multiple that is taken is in the interval**, and if the number is in the middle no other
multiple is nearer to it. -/
theorem nearest?_spec {step count : ℕ} (hstep : 0 < step) (h : i.nearest? step tie = some count) :
    i.holds (count * step) = true ∧ (i.IsCentred →
      2 * (count * step) ≤ 2 * i.middle + step ∧ 2 * i.middle ≤ 2 * (count * step) + step) := by
  have hsplit := Nat.div_add_mod' i.middle step
  have hlt := Nat.mod_lt i.middle hstep
  have habove : (i.middle / step + 1) * step = i.middle / step * step + step := Nat.succ_mul ..
  rw [nearest?] at h
  split at h <;> cases h <;> rename_i hbelow habove'
  · refine ⟨?_, fun _ => ?_⟩
    · obtain hround | hround := roundRatio_cases i.middle step tie <;> rw [hround] <;> assumption
    · rw [Nat.mul_comm _ step]
      exact roundRatio_near i.middle tie hstep
  · refine ⟨hbelow, fun hi => ?_⟩
    have hfar := hi.le_add hbelow habove' (by omega)
    omega
  · refine ⟨habove', fun hi => ?_⟩
    have hfar := hi.add_le habove' hbelow (by omega)
    omega

/-- What the search for the coarsest decimal finds: a multiple of some step that is held, and is
nearest if the number is in the middle. -/
theorem coarsest_spec (hmiddle : i.holds i.middle = true) (tie : Tie) (power : ℕ) :
    ∃ count p : ℕ, i.coarsest tie power = ⟨count, i.exponent + p⟩ ∧
      i.holds (count * 10 ^ p) = true ∧ (i.IsCentred →
        2 * (count * 10 ^ p) ≤ 2 * i.middle + 10 ^ p ∧
          2 * i.middle ≤ 2 * (count * 10 ^ p) + 10 ^ p) := by
  induction power with
  | zero =>
    refine ⟨i.middle, 0, by simp [coarsest], by simpa using hmiddle, fun _ => ?_⟩
    simp
  | succ power ih =>
    rw [coarsest]
    split
    · rename_i count hcount
      exact ⟨count, power + 1, rfl, nearest?_spec (Nat.pow_pos (by decide)) hcount⟩
    · exact ih

end Interval

namespace Decimal

open Binary

variable {f : BinaryFormat} {mantissa : ℕ} {exponent : ℤ}

/-- A number is in the middle of its interval, unless it is a power of two. -/
theorem isCentred_ofBinary (hmantissa : 0 < mantissa) (hpower : mantissa ≠ f.fractions) :
    (Interval.ofBinary f mantissa exponent).IsCentred := by
  have hnarrow : ¬ (mantissa = f.fractions ∧ f.leastExponent < exponent) := fun h => hpower h.1
  constructor
  · simp only [Interval.ofBinary, if_neg hnarrow]
    exact Nat.mul_le_mul_right _ (Nat.sub_le ..)
  · simp only [Interval.ofBinary, if_neg hnarrow, ← Nat.add_mul, ← Nat.mul_assoc]
    congr 1
    omega

/-- **The shortest decimal of a number rounds to it.**  If the number is not a power of two, the
decimal is a multiple of a power of ten, and no other multiple is nearer to the number. -/
theorem shortest_spec (hmantissa : 0 < mantissa) (tie : Tie) :
    let d := shortest f tie mantissa exponent
    RoundsTo f mantissa exponent d.value ∧
      (mantissa ≠ f.fractions → ∃ (count : ℕ) (power : ℤ), d.value = count * 10 ^ power ∧
        2 * |count * 10 ^ power - (mantissa * 2 ^ exponent : ℚ)| ≤ 10 ^ power) := by
  intro d
  have hself : RoundsTo f mantissa exponent (mantissa * 2 ^ exponent) := roundsTo_self ..
  obtain ⟨-, hmiddle, -⟩ := Interval.ofBinary_value f hmantissa exponent
  have hholds := (Interval.holds_iff (f := f) hmantissa).mpr (hmiddle.symm ▸ hself)
  obtain ⟨count, p, hcoarsest, hheld, hnear⟩ := Interval.coarsest_spec hholds tie
    ((digits (Interval.ofBinary f mantissa exponent).middle).length - 1)
  have hvalue : d.value = ((count * 10 ^ p : ℕ) : ℚ) *
      10 ^ (Interval.ofBinary f mantissa exponent).exponent := by
    change (trim _).value = _
    rw [value_trim, hcoarsest, value, zpow_add₀ (by norm_num), zpow_natCast]
    push_cast
    ring
  refine ⟨hvalue ▸ (Interval.holds_iff hmantissa).mp hheld, fun hpower => ?_⟩
  obtain ⟨hlow, hhigh⟩ := hnear (isCentred_ofBinary hmantissa hpower)
  have hlow' : (2 * (count * 10 ^ p) : ℚ)
      ≤ 2 * (Interval.ofBinary f mantissa exponent).middle + 10 ^ p := by exact_mod_cast hlow
  have hhigh' : (2 * (Interval.ofBinary f mantissa exponent).middle : ℚ)
      ≤ 2 * (count * 10 ^ p) + 10 ^ p := by exact_mod_cast hhigh
  have hten := ten_zpow_pos (Interval.ofBinary f mantissa exponent).exponent
  refine ⟨count, p + (Interval.ofBinary f mantissa exponent).exponent, ?_, ?_⟩
  · rw [hvalue, zpow_add₀ (by norm_num), zpow_natCast]
    push_cast
    ring
  · rw [← hmiddle, zpow_add₀ (by norm_num), zpow_natCast, ← mul_assoc, ← sub_mul, abs_mul,
      abs_of_pos hten, ← mul_assoc]
    refine mul_le_mul_of_nonneg_right ?_ hten.le
    rw [← le_div_iff₀' two_pos, abs_le]
    constructor <;> linarith

end Decimal

end TapeLife
