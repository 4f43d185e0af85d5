import TapeLife.Proofs.Number.Extended

/-!
# Proofs/Number/Nearest — what rounds to a number of a format

            (M - ½)·2^q        M·2^q        (M + ½)·2^q
    ────────────┤═════════════════┿══════════════├────────
                     all of this rounds to M·2^q

A quotient is rounded to the nearest multiple of the step that its leading bit asks for
(`exists_ofRatio`).  So the numbers that round to `M·2^q` lie between the points halfway to its
neighbours, which belong to it if `M` is even (`RoundsTo`, `ofRatio_eq_of_roundsTo`).  Below a power
of two the steps are half as long, and so is the way to the lower neighbour.
-/

namespace TapeLife

/-! ## Rounding to whole numbers -/

section Round

variable {num den m : ℕ}

/-- **A quotient is rounded to a number that is near**, if it is even or no other one is as near. -/
theorem roundRatio_even_eq (hden : 0 < den) (hlow : 2 * (den * m) ≤ 2 * num + den)
    (hhigh : 2 * num ≤ 2 * (den * m) + den)
    (hinside : m % 2 = 0 ∨ 2 * (den * m) < 2 * num + den ∧ 2 * num < 2 * (den * m) + den) :
    roundRatio num den .even = m := by
  have hsplit := Nat.div_add_mod num den
  have hlt := Nat.mod_lt num hden
  have hup : den * (num / den + 1) = den * (num / den) + den := Nat.mul_succ ..
  have hup' : den * (num / den + 1 + 1) = den * (num / den) + den + den := by
    rw [Nat.mul_succ, hup]
  have hge : num / den ≤ m := Nat.le_of_not_lt fun h => by
    have hmul := Nat.mul_le_mul_left den (Nat.succ_le_of_lt h)
    rw [Nat.mul_succ] at hmul
    omega
  have hle : m ≤ num / den + 1 := Nat.le_of_not_lt fun h => by
    have hmul := Nat.mul_le_mul_left den (Nat.succ_le_of_lt h)
    rw [Nat.succ_eq_add_one, hup'] at hmul
    omega
  simp only [roundRatio]
  generalize num / den = low at *
  obtain rfl | rfl : m = low ∨ m = low + 1 := by omega
  · split
    · rfl
    · split
      · omega
      · rw [if_pos (by omega)]
  · rw [hup] at hlow hhigh hinside
    split
    · omega
    · split
      · rfl
      · rw [if_neg (by omega)]

/-- The same with quotients. -/
theorem roundRatio_even_eq_of_near (hden : 0 < den) (hlow : (m : ℚ) - 1 / 2 ≤ num / den)
    (hhigh : (num : ℚ) / den ≤ m + 1 / 2)
    (hinside : m % 2 = 0 ∨ (m : ℚ) - 1 / 2 < num / den ∧ (num : ℚ) / den < m + 1 / 2) :
    roundRatio num den .even = m := by
  have hpos : (0 : ℚ) < den := Nat.cast_pos.mpr hden
  rw [le_div_iff₀ hpos] at hlow
  rw [div_le_iff₀ hpos] at hhigh
  rw [lt_div_iff₀ hpos, div_lt_iff₀ hpos] at hinside
  have hlow' : (2 * (den * m) : ℚ) ≤ 2 * num + den := by linarith
  have hhigh' : (2 * num : ℚ) ≤ 2 * (den * m) + den := by linarith
  refine roundRatio_even_eq hden (by exact_mod_cast hlow') (by exact_mod_cast hhigh')
    (hinside.imp_right fun ⟨hlt, hlt'⟩ => ?_)
  have hlt : (2 * (den * m) : ℚ) < 2 * num + den := by linarith
  have hlt' : (2 * num : ℚ) < 2 * (den * m) + den := by linarith
  exact ⟨by exact_mod_cast hlt, by exact_mod_cast hlt'⟩

/-- A rounded quotient is at most half a unit away. -/
theorem abs_roundRatio_sub_le (num : ℕ) (tie : Tie) (hden : 0 < den) :
    |(roundRatio num den tie : ℚ) - num / den| ≤ 1 / 2 := by
  have hpos : (0 : ℚ) < den := Nat.cast_pos.mpr hden
  obtain ⟨hlow, hhigh⟩ := roundRatio_near num tie hden
  generalize roundRatio num den tie = rounded at *
  have hlow' : (2 * (den * rounded) : ℚ) ≤ 2 * num + den := by exact_mod_cast hlow
  have hhigh' : (2 * num : ℚ) ≤ 2 * (den * rounded) + den := by exact_mod_cast hhigh
  have hquot : (num : ℚ) / den * den = num := div_mul_cancel₀ _ hpos.ne'
  rw [abs_le]
  constructor <;> refine le_of_mul_le_mul_right ?_ hpos <;> rw [sub_mul, hquot] <;> linarith

end Round

namespace Binary

open BinaryFormat

/-! ## The leading bit -/

/-- **The leading exponent** is that of the power of two at or below the quotient. -/
theorem leadingExponent_spec {num den : ℕ} (hnum : 0 < num) (hden : 0 < den) :
    (2 : ℚ) ^ leadingExponent num den ≤ num / den ∧
      (num / den : ℚ) < 2 ^ (leadingExponent num den + 1) := by
  have hposDen : (0 : ℚ) < den := Nat.cast_pos.mpr hden
  have hnumLow : (2 : ℚ) ^ num.log2 ≤ num := by exact_mod_cast Nat.log2_self_le hnum.ne'
  have hnumHigh : (num : ℚ) < 2 ^ (num.log2 + 1) := by exact_mod_cast Nat.lt_log2_self
  have hdenLow : (2 : ℚ) ^ den.log2 ≤ den := by exact_mod_cast Nat.log2_self_le hden.ne'
  have hdenHigh : (den : ℚ) < 2 ^ (den.log2 + 1) := by exact_mod_cast Nat.lt_log2_self
  have hpow (a b : ℕ) (k : ℤ) : (2 : ℚ) ^ ((a : ℤ) - b + k) * 2 ^ b = 2 ^ a * 2 ^ k := by
    rw [← zpow_natCast, ← zpow_natCast, ← zpow_add₀ two_ne_zero, ← zpow_add₀ two_ne_zero]
    congr 1
    ring
  have hlow : (2 : ℚ) ^ ((num.log2 : ℤ) - den.log2 + -1) ≤ num / den := by
    have hstep := hpow num.log2 den.log2 (-1)
    have hpos : (0 : ℚ) < 2 ^ ((num.log2 : ℤ) - den.log2 + -1) := by positivity
    rw [le_div_iff₀ hposDen]
    refine (mul_le_mul_of_nonneg_left hdenHigh.le hpos.le).trans ?_
    rw [pow_succ, ← mul_assoc, hstep, zpow_neg_one]
    linarith
  have hhigh : (num / den : ℚ) < 2 ^ ((num.log2 : ℤ) - den.log2 + 1) := by
    have hstep := hpow num.log2 den.log2 1
    rw [zpow_one] at hstep
    rw [div_lt_iff₀ hposDen]
    refine hnumHigh.trans_le ?_
    rw [pow_succ, ← hstep]
    exact mul_le_mul_of_nonneg_left hdenLow (by positivity)
  rw [leadingExponent]
  generalize (num.log2 : ℤ) - den.log2 = guess at *
  have hratio := scaleRatio_div num den (-guess)
  have hscaled : (0 : ℚ) < (scaleRatio num den (-guess)).2 :=
    Nat.cast_pos.mpr (scaleRatio_den_pos hden _)
  have hcond : (scaleRatio num den (-guess)).2 ≤ (scaleRatio num den (-guess)).1 ↔
      (2 : ℚ) ^ guess ≤ num / den := by
    rw [← @Nat.cast_le ℚ, ← one_le_div₀ hscaled, hratio, zpow_neg, ← div_eq_mul_inv,
      one_le_div₀ (by positivity)]
  split
  · rename_i hle
    exact ⟨hcond.mp hle, hhigh⟩
  · rename_i hlt
    refine ⟨hlow, ?_⟩
    rw [sub_add_cancel]
    exact lt_of_not_ge (mt hcond.mpr hlt)

variable {f : BinaryFormat} {num den mantissa : ℕ} {exponent : ℤ}

theorem cast_fractions (f : BinaryFormat) : (f.fractions : ℚ) = 2 ^ (f.fractionBits : ℤ) := by
  rw [zpow_natCast]
  exact_mod_cast rfl

/-- A quotient in steps of a power of two. -/
theorem scaleRatio_neg_div (num den : ℕ) (exponent : ℤ) :
    ((scaleRatio num den (-exponent)).1 : ℚ) / (scaleRatio num den (-exponent)).2
      = num / den / 2 ^ exponent := by
  rw [scaleRatio_div, zpow_neg, ← div_eq_mul_inv]

/-! ## To the nearest step -/

/-- **A quotient is rounded to a multiple of its step**, and is at most half a step away. -/
theorem exists_ofRatio (hnum : 0 < num) (hden : 0 < den) (negative : Bool)
    (hexponent : leadingExponent num den = exponent + f.fractionBits)
    (hleast : f.leastExponent ≤ exponent) (hgreatest : exponent < f.greatestExponent) :
    ∃ (count m : ℕ) (q : ℤ), ofRatio f negative num den = .finite negative m q ∧ m ≠ 0 ∧
      (m * 2 ^ q : ℚ) = count * 2 ^ exponent ∧
      |count * 2 ^ exponent - (num : ℚ) / den| ≤ 2 ^ exponent / 2 ∧
      (2 : ℚ) ^ (exponent + f.fractionBits) ≤ count * 2 ^ exponent := by
  obtain ⟨hlow, -⟩ := leadingExponent_spec hnum hden
  have hscaled : 0 < (scaleRatio num den (-exponent)).2 := scaleRatio_den_pos hden _
  have hquot := scaleRatio_neg_div num den exponent
  have hstep : (0 : ℚ) < 2 ^ exponent := by positivity
  have hfractions : f.fractions * 2 ^ exponent = (2 : ℚ) ^ (exponent + f.fractionBits) := by
    rw [cast_fractions, ← zpow_add₀ two_ne_zero, add_comm]
  rw [ofRatio, hexponent, add_sub_cancel_right, max_eq_left hleast]
  rw [hexponent, ← hfractions] at hlow
  have hnear := abs_roundRatio_sub_le (scaleRatio num den (-exponent)).1 .even hscaled
  rw [hquot, abs_le] at hnear
  simp only
  generalize roundRatio _ _ .even = count at *
  have hvalue : (num : ℚ) / den = num / den / 2 ^ exponent * 2 ^ exponent :=
    (div_mul_cancel₀ _ hstep.ne').symm
  have hratio : (f.fractions : ℚ) ≤ num / den / 2 ^ exponent := (le_div_iff₀ hstep).mpr hlow
  have hcount : f.fractions ≤ count := by
    by_contra hlt
    have hlt' : (count + 1 : ℚ) ≤ f.fractions := by exact_mod_cast Nat.lt_of_not_le hlt
    linarith
  have hpos : 0 < f.fractions := Nat.pow_pos (by decide)
  have hbottom : (f.fractions * 2 ^ exponent : ℚ) ≤ count * 2 ^ exponent := by gcongr
  have hdistance : |count * 2 ^ exponent - (num : ℚ) / den| ≤ 2 ^ exponent / 2 := by
    have hhalf : (2 : ℚ) ^ exponent / 2 = 1 / 2 * 2 ^ exponent := by ring
    rw [hvalue, ← sub_mul, abs_mul, abs_of_pos hstep, hhalf]
    refine mul_le_mul_of_nonneg_right (abs_le.mpr ⟨?_, ?_⟩) hstep.le <;> linarith
  by_cases hcarry : count = 2 * f.fractions
  · refine ⟨count, f.fractions, exponent + 1, ?_, hpos.ne', ?_, hdistance, hfractions ▸ hbottom⟩
    · rw [if_pos hcarry, if_neg (by omega)]
    · rw [hcarry, zpow_add_one₀ two_ne_zero]
      push_cast
      ring
  · refine ⟨count, count, exponent, ?_, by omega, rfl, hdistance, hfractions ▸ hbottom⟩
    rw [if_neg hcarry, if_neg (by omega)]

/-! ## What rounds to a number -/

/-- The mantissa and the exponent of a number of a format, as they are stored. -/
structure Canonical (f : BinaryFormat) (mantissa : ℕ) (exponent : ℤ) : Prop where
  mantissa_lt : mantissa < 2 * f.fractions
  least_le : f.leastExponent ≤ exponent
  normal : f.fractions ≤ mantissa ∨ exponent = f.leastExponent

/-- Steps from a number down to the point halfway to its lower neighbour. -/
def gapBelow (f : BinaryFormat) (mantissa : ℕ) (exponent : ℤ) : ℚ :=
  if mantissa = f.fractions ∧ f.leastExponent < exponent then 1 / 4 else 1 / 2

/-- The numbers that round to `mantissa · 2 ^ exponent`: those between the points halfway to its
neighbours, and these points as well if the mantissa is even. -/
structure RoundsTo (f : BinaryFormat) (mantissa : ℕ) (exponent : ℤ) (x : ℚ) : Prop where
  low : (mantissa - gapBelow f mantissa exponent) * 2 ^ exponent ≤ x
  high : x ≤ (mantissa + 1 / 2) * 2 ^ exponent
  inside : mantissa % 2 = 0 ∨
    (mantissa - gapBelow f mantissa exponent) * 2 ^ exponent < x ∧
      x < (mantissa + 1 / 2) * 2 ^ exponent

/-- A step is four of its quarters. -/
theorem zpow_eq_four_quarters (exponent : ℤ) : (2 : ℚ) ^ exponent = 4 * 2 ^ (exponent - 2) := by
  rw [zpow_sub₀ two_ne_zero]
  norm_num
  ring

theorem gapBelow_le (f : BinaryFormat) (mantissa : ℕ) (exponent : ℤ) :
    gapBelow f mantissa exponent ≤ 1 / 2 := by
  rw [gapBelow]
  split <;> norm_num

theorem gapBelow_pos (f : BinaryFormat) (mantissa : ℕ) (exponent : ℤ) :
    0 < gapBelow f mantissa exponent := by
  rw [gapBelow]
  split <;> norm_num

theorem roundsTo_self (f : BinaryFormat) (mantissa : ℕ) (exponent : ℤ) :
    RoundsTo f mantissa exponent (mantissa * 2 ^ exponent) := by
  have hgap := gapBelow_pos f mantissa exponent
  have hstep : (0 : ℚ) < 2 ^ exponent := by positivity
  have hlow : (mantissa - gapBelow f mantissa exponent) * 2 ^ exponent
      < (mantissa * 2 ^ exponent : ℚ) := mul_lt_mul_of_pos_right (by linarith) hstep
  have hhigh : (mantissa * 2 ^ exponent : ℚ) < (mantissa + 1 / 2) * 2 ^ exponent :=
    mul_lt_mul_of_pos_right (by linarith) hstep
  exact ⟨hlow.le, hhigh.le, .inr ⟨hlow, hhigh⟩⟩

section RoundsTo

variable (hcanonical : Canonical f mantissa exponent) (hnum : 0 < num) (hden : 0 < den)
  (h : RoundsTo f mantissa exponent (num / den))
include hcanonical hnum hden h

/-- The steps of what rounds to a number are no longer than those of the number. -/
theorem leadingExponent_le_of_roundsTo : leadingExponent num den ≤ exponent + f.fractionBits := by
  obtain ⟨hlow, -⟩ := leadingExponent_spec hnum hden
  have hstep : (0 : ℚ) < 2 ^ exponent := by positivity
  have hmantissa : (mantissa + 1 / 2 : ℚ) < 2 ^ (f.fractionBits + 1 : ℤ) := by
    have hle : (mantissa + 1 : ℚ) ≤ 2 * f.fractions := by exact_mod_cast hcanonical.mantissa_lt
    rw [cast_fractions] at hle
    rw [zpow_add_one₀ two_ne_zero]
    linarith
  have hlt : (2 : ℚ) ^ leadingExponent num den < 2 ^ (exponent + f.fractionBits + 1) := by
    refine hlow.trans_lt (h.high.trans_lt ((mul_lt_mul_of_pos_right hmantissa hstep).trans_eq ?_))
    rw [← zpow_add₀ two_ne_zero]
    congr 1
    ring
  have hlt' := (zpow_lt_zpow_iff_right₀ one_lt_two).mp hlt
  omega

/-- They are shorter only below a power of two, and half as long there. -/
theorem leadingExponent_of_lt (hleast : f.leastExponent < exponent)
    (hlt : leadingExponent num den < exponent + f.fractionBits) :
    mantissa = f.fractions ∧ leadingExponent num den = exponent - 1 + f.fractionBits := by
  obtain ⟨-, hhigh⟩ := leadingExponent_spec hnum hden
  have hstep : (0 : ℚ) < 2 ^ exponent := by positivity
  have hfractions : (1 : ℚ) ≤ f.fractions := by exact_mod_cast Nat.pow_pos (by decide)
  have hpower (k : ℤ) (hk : leadingExponent num den + 1 ≤ exponent + f.fractionBits + k) :
      (num : ℚ) / den < f.fractions * 2 ^ k * 2 ^ exponent := by
    refine hhigh.trans_le ((zpow_le_zpow_right₀ one_le_two hk).trans_eq ?_)
    rw [cast_fractions, ← zpow_add₀ two_ne_zero, ← zpow_add₀ two_ne_zero]
    congr 1
    ring
  have hmantissa : mantissa = f.fractions := by
    have hnormal := hcanonical.normal.resolve_right hleast.ne'
    have hgap := gapBelow_le f mantissa exponent
    have hlow := h.low.trans_lt (hpower 0 (by omega))
    rw [zpow_zero, mul_one] at hlow
    have hlt' : (mantissa : ℚ) < f.fractions + 1 := by
      linarith [lt_of_mul_lt_mul_right hlow hstep.le]
    have hle : mantissa < f.fractions + 1 := by exact_mod_cast hlt'
    omega
  refine ⟨hmantissa, le_antisymm (by omega) (Int.le_of_not_gt fun hless => ?_)⟩
  have hlow := h.low.trans_lt (hpower (-1) (by omega))
  rw [gapBelow, if_pos ⟨hmantissa, hleast⟩, hmantissa, zpow_neg_one] at hlow
  linarith [lt_of_mul_lt_mul_right hlow hstep.le]

omit hcanonical hnum in
/-- In steps of the number, what rounds to it is rounded to its mantissa. -/
theorem roundRatio_of_roundsTo :
    roundRatio (scaleRatio num den (-exponent)).1 (scaleRatio num den (-exponent)).2 .even
      = mantissa := by
  have hgap := gapBelow_le f mantissa exponent
  have hstep : (0 : ℚ) < 2 ^ exponent := by positivity
  refine roundRatio_even_eq_of_near (scaleRatio_den_pos hden _) ?_ ?_
    (h.inside.imp_right fun ⟨hlow, hhigh⟩ => ⟨?_, ?_⟩) <;> rw [scaleRatio_neg_div]
  · rw [le_div_iff₀ hstep]
    exact (mul_le_mul_of_nonneg_right (by linarith) hstep.le).trans h.low
  · rw [div_le_iff₀ hstep]
    exact h.high
  · rw [lt_div_iff₀ hstep]
    exact (mul_le_mul_of_nonneg_right (by linarith) hstep.le).trans_lt hlow
  · rw [div_lt_iff₀ hstep]
    exact hhigh

/-- Below a power of two the steps are half as long, and what rounds to it is rounded to twice its
mantissa. -/
theorem roundRatio_of_lt (hleast : f.leastExponent < exponent)
    (hlt : leadingExponent num den < exponent + f.fractionBits) :
    roundRatio (scaleRatio num den (-(exponent - 1))).1 (scaleRatio num den (-(exponent - 1))).2 .even
      = 2 * f.fractions := by
  obtain ⟨hpower, hhalf⟩ := leadingExponent_of_lt hcanonical hnum hden h hleast hlt
  obtain ⟨-, hhigh⟩ := leadingExponent_spec hnum hden
  have hstep : (0 : ℚ) < 2 ^ (exponent - 1) := by positivity
  have hdouble : (2 : ℚ) ^ exponent = 2 * 2 ^ (exponent - 1) := by
    rw [zpow_sub_one₀ two_ne_zero]
    ring
  refine roundRatio_even_eq_of_near (scaleRatio_den_pos hden _) ?_ ?_ (.inl (by omega)) <;>
    rw [scaleRatio_neg_div] <;> push_cast
  · have hlow := h.low
    rw [gapBelow, if_pos ⟨hpower, hleast⟩, hpower, hdouble] at hlow
    rw [le_div_iff₀ hstep]
    linarith
  · rw [hhalf, show exponent - 1 + (f.fractionBits : ℤ) + 1 = f.fractionBits + 1 + (exponent - 1)
      by ring, zpow_add₀ two_ne_zero, zpow_add_one₀ two_ne_zero, ← cast_fractions] at hhigh
    rw [div_le_iff₀ hstep]
    linarith

/-- **What rounds to a number is rounded to it.** -/
theorem ofRatio_eq_of_roundsTo (hgreatest : exponent ≤ f.greatestExponent) (negative : Bool) :
    ofRatio f negative num den = .finite negative mantissa exponent := by
  have hle := leadingExponent_le_of_roundsTo hcanonical hnum hden h
  have hleast := hcanonical.least_le
  rw [ofRatio]
  by_cases hsame : max (leadingExponent num den - f.fractionBits) f.leastExponent = exponent
  · have hlt := hcanonical.mantissa_lt
    simp only [hsame, roundRatio_of_roundsTo hden h]
    rw [if_neg hlt.ne, if_neg (by omega)]
  · have hround := roundRatio_of_lt hcanonical hnum hden h (by omega) (by omega)
    obtain ⟨hpower, hhalf⟩ := leadingExponent_of_lt hcanonical hnum hden h (by omega) (by omega)
    have hexponent : max (leadingExponent num den - f.fractionBits) f.leastExponent
        = exponent - 1 := by omega
    simp only [hexponent, hround, if_true, sub_add_cancel, hpower]
    rw [if_neg (by omega)]

end RoundsTo

/-- Whatever the format that a number comes from, it is rounded to the number that it rounds to. -/
theorem roundTo_eq_of_roundsTo {m : ℕ} {q : ℤ} (hcanonical : Canonical f mantissa exponent)
    (hgreatest : exponent ≤ f.greatestExponent) (hm : m ≠ 0)
    (h : RoundsTo f mantissa exponent (m * 2 ^ q)) (negative : Bool) :
    roundTo f (.finite negative m q) = .finite negative mantissa exponent := by
  have hden : 0 < (scaleRatio m 1 q).2 := scaleRatio_den_pos Nat.one_pos q
  have hquot := scaleRatio_div m 1 q
  rw [Nat.cast_one, div_one] at hquot
  have hnum : 0 < (scaleRatio m 1 q).1 := by
    rw [scaleRatio]
    split
    · exact Nat.mul_pos (Nat.pos_of_ne_zero hm) (Nat.pow_pos (by decide))
    · exact Nat.pos_of_ne_zero hm
  rw [roundTo, if_neg hm]
  exact ofRatio_eq_of_roundsTo hcanonical hnum hden (hquot ▸ h) hgreatest negative

/-! ## Bit patterns -/

/-- A finite number is stored as its mantissa and its exponent are. -/
theorem canonical_of_ofBits {bits : ℕ} {negative : Bool}
    (h : ofBits f bits = .finite negative mantissa exponent) : Canonical f mantissa exponent := by
  have hfraction : bits % f.fractions < f.fractions := Nat.mod_lt _ (Nat.pow_pos (by decide))
  rw [ofBits] at h
  split at h
  · split at h <;> cases h
  · split at h <;> cases h
    · exact ⟨by omega, le_refl _, .inr rfl⟩
    · exact ⟨by omega, by omega, .inl (Nat.le_add_right ..)⟩

/-- **A finite number has the pattern that it was read from.** -/
theorem toBits_ofBits {bits : ℕ} (hbits : bits / f.fractions / f.fields < 2) {negative : Bool}
    (h : ofBits f bits = .finite negative mantissa exponent) :
    toBits f (.finite negative mantissa exponent) = bits := by
  have hsplit := Nat.div_add_mod bits f.fractions
  have hsplit' := Nat.div_add_mod (bits / f.fractions) f.fields
  have hsign : ∀ n < 2, (decide (n % 2 = 1)).toNat = n := by decide
  have hparts : (((decide (bits / f.fractions / f.fields % 2 = 1)).toNat * f.fields
      + bits / f.fractions % f.fields) * f.fractions + bits % f.fractions) = bits := by
    rw [hsign _ hbits, Nat.mul_comm _ f.fields, hsplit', Nat.mul_comm _ f.fractions, hsplit]
  rw [ofBits] at h
  generalize bits % f.fractions = fraction at *
  generalize bits / f.fractions % f.fields = field at *
  generalize decide (bits / f.fractions / f.fields % 2 = 1) = sign at *
  split at h
  · split at h <;> cases h
  · split at h <;> cases h
    · rename_i hzero
      rw [toBits, pattern, sub_self, Int.toNat_zero, ← hparts, hzero]
    · rename_i hfield
      have hshift : (f.leastExponent + ((field : ℤ) - 1) - f.leastExponent).toNat = field - 1 := by
        omega
      have hfield' : negative.toNat * f.fields + field
          = negative.toNat * f.fields + (field - 1) + 1 := by
        omega
      rw [toBits, pattern, hshift, ← hparts, hfield', Nat.succ_mul]
      omega

end Binary

namespace Single

open Binary

variable {x : Single} {negative : Bool} {mantissa : ℕ} {exponent : ℤ}

theorem canonical_of_value (h : x.value = .finite negative mantissa exponent) :
    Canonical .single mantissa exponent := canonical_of_ofBits h

theorem toBits_value (h : x.value = .finite negative mantissa exponent) :
    (Binary.finite negative mantissa exponent).toBits .single = x.bits.toNat := by
  refine toBits_ofBits ?_ h
  have hbits := x.bits.toNat_lt
  change x.bits.toNat / 2 ^ 23 / 2 ^ 8 < 2
  omega

/-- **What rounds to a number is read as it.** -/
theorem ofBinary_eq {m : ℕ} {q : ℤ} (h : x.value = .finite negative mantissa exponent)
    (hm : m ≠ 0) (hexponent : exponent ≤ BinaryFormat.single.greatestExponent)
    (hrounds : RoundsTo .single mantissa exponent (m * 2 ^ q)) :
    ofBinary (.finite negative m q) = x := by
  rw [ofBinary, roundTo_eq_of_roundsTo (canonical_of_value h) hexponent hm hrounds, toBits_value h,
    UInt32.ofNat_toNat]

end Single

end TapeLife
