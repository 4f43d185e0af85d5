import TapeLife.Mutation
import TapeLife.Proofs.Number.Extended

/-!
# Proofs/Mutation/Chances — the chances in `2 ^ 24` that are nearest to a rate

    rate      ⊥ ────── 0 ─────────────────── 1 ────── ⊤
    chances      none    nearest, a half up      all

All that a rate does to a soup goes through a whole number of chances, and that number depends on
nothing but the number that the rate is (`mutationThreshold_eq_chancesAt`).  It grows with the rate
(`chancesAt_mono`), which settles the rates outside the unit interval as well.  Inside it the
chances are the product rounded (`mutationThreshold_eq_floor`): no rate below one is so close to it
that rounding would take all of them (`mutationThreshold_lt_scale`).
-/

namespace TapeLife

/-! ## The chances of a number -/

/-- The chances that are nearest to a number: none below zero, all of them above one. -/
def chancesAt : Extended → Nat
  | ⊥ => 0
  | WithBot.some ⊤ => mutationScale
  | WithBot.some (WithTop.some q) => min mutationScale ⌊q * 2 ^ 24 + 1 / 2⌋₊

theorem chancesAt_le (x : Extended) : chancesAt x ≤ mutationScale := by
  rcases x with _ | _ | q
  · exact Nat.zero_le _
  · exact Nat.le_refl _
  · exact Nat.min_le_left ..

theorem chancesAt_zero : chancesAt 0 = 0 := by
  change min mutationScale ⌊(0 : ℚ) * 2 ^ 24 + 1 / 2⌋₊ = 0
  norm_num

theorem chancesAt_one : chancesAt 1 = mutationScale := by
  refine Nat.le_antisymm (chancesAt_le 1) (Nat.le_min.mpr ⟨Nat.le_refl _, Nat.le_floor ?_⟩)
  norm_num

/-- **A larger number has at least as many chances.** -/
theorem chancesAt_mono : Monotone chancesAt := by
  intro x y hxy
  rcases x with _ | _ | p
  · exact Nat.zero_le _
  · obtain rfl : y = ((⊤ : WithTop ℚ) : Extended) := top_le_iff.mp hxy
    exact Nat.le_refl _
  · rcases y with _ | _ | q
    · exact absurd hxy (WithBot.not_coe_le_bot _)
    · exact chancesAt_le _
    · have hpq : p ≤ q := Extended.coe_le_coe.mp hxy
      have hscaled : p * 2 ^ 24 + 1 / 2 ≤ q * 2 ^ 24 + 1 / 2 := by linarith
      exact min_le_min_left _ (Nat.floor_mono hscaled)

theorem chancesAt_of_nonpos {x : Extended} (h : x ≤ 0) : chancesAt x = 0 :=
  Nat.le_zero.mp ((chancesAt_mono h).trans_eq chancesAt_zero)

theorem chancesAt_of_one_le {x : Extended} (h : 1 ≤ x) : chancesAt x = mutationScale :=
  Nat.le_antisymm (chancesAt_le x) (chancesAt_one.symm.trans_le (chancesAt_mono h))

/-! ## The chances of a rate -/

variable {rate higher : Single} {x y : Extended} {q : ℚ}

/-- **The chances of a rate are those of the number it is**; what is no number has none. -/
theorem mutationThreshold_eq_chancesAt (rate : Single) :
    mutationThreshold rate = rate.number?.elim 0 chancesAt := by
  rw [mutationThreshold, Single.number?]
  rcases rate.value with _ | (_ | _) | ⟨_ | _, mantissa, exponent⟩
  · rfl
  · rfl
  · rfl
  · have hproduct : ((mantissa * mutationScale : ℕ) : ℚ) / (1 : ℕ) * 2 ^ exponent
        = Binary.rational false mantissa exponent * 2 ^ 24 := by
      rw [Binary.rational_false]
      push_cast
      ring
    simp only [Bool.false_eq_true, if_false, Binary.number?, Option.elim_some]
    rw [roundRatio_up_eq_floor _ (Binary.scaleRatio_den_pos Nat.one_pos exponent),
      Binary.scaleRatio_div, hproduct]
    rfl
  · exact (chancesAt_of_nonpos
      (Extended.coe_le_coe.mpr (Binary.rational_true_nonpos mantissa exponent))).symm

theorem mutationThreshold_le (rate : Single) : mutationThreshold rate ≤ mutationScale := by
  rw [mutationThreshold_eq_chancesAt]
  cases rate.number? with
  | none => exact Nat.zero_le _
  | some x => exact chancesAt_le x

/-- **A higher rate has at least as many chances.** -/
theorem mutationThreshold_mono (hx : rate.number? = some x) (hy : higher.number? = some y)
    (h : x ≤ y) : mutationThreshold rate ≤ mutationThreshold higher := by
  rw [mutationThreshold_eq_chancesAt, mutationThreshold_eq_chancesAt, hx, hy]
  exact chancesAt_mono h

/-- **Rates that are the same number mutate alike**, the two zeros among them. -/
theorem mutationThreshold_congr {rate rate' : Single} (h : rate.same rate' = true) :
    mutationThreshold rate = mutationThreshold rate' := by
  obtain ⟨x, hx, hx'⟩ := Single.exists_number?_of_same h
  rw [mutationThreshold_eq_chancesAt, mutationThreshold_eq_chancesAt, hx, hx']

/-! ## Rates below one -/

/-- A fraction with a mantissa of twenty-four bits is a whole number of chances, or less than half
of all of them. -/
theorem floor_chances_lt {mantissa : Nat} {exponent : Int} (hm : mantissa < 2 ^ 24)
    (h : (mantissa * 2 ^ exponent : ℚ) < 1) :
    ⌊(mantissa * 2 ^ exponent : ℚ) * 2 ^ 24 + 1 / 2⌋₊ < 2 ^ 24 := by
  have hscaled : (mantissa * 2 ^ exponent : ℚ) * 2 ^ 24 = mantissa * 2 ^ (exponent + 24) := by
    rw [mul_assoc, ← zpow_natCast, ← zpow_add₀ two_ne_zero]
    rfl
  rw [Nat.floor_lt (by positivity)]
  rcases le_or_gt 0 (exponent + 24) with hwhole | hhalf
  · obtain ⟨n, hn⟩ := Int.eq_ofNat_of_zero_le hwhole
    have hcast : (mantissa * 2 ^ exponent : ℚ) * 2 ^ 24 = (mantissa * 2 ^ n : ℕ) := by
      rw [hscaled, hn, zpow_natCast, Nat.cast_mul, Nat.cast_pow, Nat.cast_ofNat]
    have hlt : ((mantissa * 2 ^ n : ℕ) : ℚ) < (2 ^ 24 : ℕ) := by
      rw [← hcast]
      push_cast
      linarith
    have hle : ((mantissa * 2 ^ n + 1 : ℕ) : ℚ) ≤ (2 ^ 24 : ℕ) :=
      Nat.cast_le.mpr (Nat.cast_lt.mp hlt)
    rw [hcast]
    push_cast at hle ⊢
    linarith
  · have hpow : (2 : ℚ) ^ (exponent + 24) ≤ 2 ^ (-1 : ℤ) :=
      zpow_le_zpow_right₀ one_le_two (by omega)
    have hmantissa : (mantissa : ℚ) ≤ (2 ^ 24 : ℕ) := Nat.cast_le.mpr hm.le
    have hprod : (mantissa : ℚ) * 2 ^ (exponent + 24) ≤ (2 ^ 24 : ℕ) * 2 ^ (-1 : ℤ) := by gcongr
    rw [hscaled]
    norm_num at hprod ⊢
    linarith

/-- **Below one some chances are left out.** -/
theorem mutationThreshold_lt_scale (h : rate.number? = some x) (hx : x < 1) :
    mutationThreshold rate < mutationScale := by
  rw [mutationThreshold_eq_chancesAt, h, Option.elim_some]
  rcases hvalue : rate.value with _ | (_ | _) | ⟨_ | _, mantissa, exponent⟩ <;>
    rw [Single.number?, hvalue] at h <;> cases h
  · exact absurd hx (not_lt_of_ge (WithBot.coe_le_coe.mpr le_top))
  · exact Nat.two_pow_pos 24
  · rw [Binary.rational_false] at hx ⊢
    exact (Nat.min_le_right ..).trans_lt
      (floor_chances_lt (Single.mantissa_lt hvalue) (Extended.coe_lt_coe.mp hx))
  · rw [chancesAt_of_nonpos
      (Extended.coe_le_coe.mpr (Binary.rational_true_nonpos mantissa exponent))]
    exact Nat.two_pow_pos 24

/-- **Below one the chances are the product rounded**, a half up. -/
theorem mutationThreshold_eq_floor (h : rate.number? = some (q : WithTop ℚ)) (hq : q < 1) :
    mutationThreshold rate = ⌊q * 2 ^ 24 + 1 / 2⌋₊ := by
  have hlt := mutationThreshold_lt_scale h (Extended.coe_lt_coe.mpr hq)
  rw [mutationThreshold_eq_chancesAt, h] at hlt ⊢
  change min mutationScale _ < _ at hlt
  change min mutationScale _ = _
  omega

/-- **The chances are at most half a chance away from the rate**, and a half goes up. -/
theorem mutationThreshold_near (h : rate.number? = some (q : WithTop ℚ)) (hpos : 0 < q)
    (hlt : q < 1) :
    |(mutationThreshold rate : ℚ) - q * 2 ^ 24| ≤ 1 / 2 ∧
      ∀ n : ℕ, q * 2 ^ 24 = n + 1 / 2 → mutationThreshold rate = n + 1 := by
  rw [mutationThreshold_eq_floor h hlt]
  constructor
  · have hlow := Nat.floor_le (a := q * 2 ^ 24 + 1 / 2) (by positivity)
    have hhigh := Nat.lt_floor_add_one (q * 2 ^ 24 + 1 / 2)
    rw [abs_le]
    constructor <;> linarith
  · intro n hn
    rw [hn, add_assoc, add_halves]
    exact_mod_cast Nat.floor_natCast (n + 1)

end TapeLife
