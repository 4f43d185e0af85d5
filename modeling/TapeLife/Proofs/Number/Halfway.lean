import TapeLife.Proofs.Number.Extended

/-!
# Proofs/Number/Halfway — decimals stay away from the points halfway between two numbers

    a/b ───────── P/Q ───────── c/d        b·c = a·d + 1, and no denominator between is small

Let `N` be an odd number of twenty-five bits, so that `N·2^-(t+1)` is halfway between two numbers of
twenty-four bits, and let a decimal have as many places as are needed to tell such numbers apart
(`places`).  The two are equal if `D/N` is `P/Q`, where `P` and `Q` are powers of five and of two.
Two fractions with small denominators on both sides of `P/Q`, with nothing simple between them, keep
all other fractions with small denominators away (`le_or_le_of_neighbours`).  They are found by
bisection with mediants, once for every exponent (`neighbours`), and are far enough away but for one
that is not (`isFar_of_odd`).
-/

namespace TapeLife

namespace Halfway

/-- The quotient `D / N` is further from `P / Q` than one part in `2 ^ 53`. -/
def IsFar (P Q N D : ℕ) : Prop :=
  N * P + 2 ^ 53 * (D * Q) < 2 ^ 53 * (N * P) ∨ N * P + 2 ^ 53 * (N * P) < 2 ^ 53 * (D * Q)

section Neighbours

variable {P Q N D a b c d : ℕ}

/-- **Between two neighbours there is no fraction with a small denominator.** -/
theorem le_or_le_of_neighbours (hdet : b * c = a * d + 1) (hN : N < b + d) :
    D * b ≤ a * N ∨ c * N ≤ D * d := by
  by_contra hbetween
  obtain ⟨hlow, hhigh⟩ := not_or.mp hbetween
  have hlow' : d * (a * N + 1) ≤ d * (D * b) := Nat.mul_le_mul_left d (by omega)
  have hhigh' : b * (D * d + 1) ≤ b * (c * N) := Nat.mul_le_mul_left b (by omega)
  have hdet' : b * c * N = (a * d + 1) * N := by rw [hdet]
  have hle : b + d ≤ N := by linarith
  omega

/-- A fraction below one that is far enough below is far. -/
theorem isFar_of_le (hN : 0 < N) (hfar : b * P + 2 ^ 53 * (a * Q) < 2 ^ 53 * (b * P))
    (hle : D * b ≤ a * N) : IsFar P Q N D := by
  refine .inl (Nat.lt_of_mul_lt_mul_left (a := b) ?_)
  have hscaled := Nat.mul_lt_mul_of_pos_left hfar hN
  have hle' : 2 ^ 53 * Q * (D * b) ≤ 2 ^ 53 * Q * (a * N) := Nat.mul_le_mul_left _ hle
  linarith

/-- A fraction above one that is far enough above is far. -/
theorem isFar_of_ge (hN : 0 < N) (hfar : d * P + 2 ^ 53 * (d * P) < 2 ^ 53 * (c * Q))
    (hle : c * N ≤ D * d) : IsFar P Q N D := by
  refine .inr (Nat.lt_of_mul_lt_mul_left (a := d) ?_)
  have hscaled := Nat.mul_lt_mul_of_pos_left hfar hN
  have hle' : 2 ^ 53 * Q * (c * N) ≤ 2 ^ 53 * Q * (D * d) := Nat.mul_le_mul_left _ hle
  linarith

/-- A fraction below another one that is itself below is far, since both have small denominators. -/
theorem isFar_of_lt (hN : N < 2 ^ 25) (hb : b < 2 ^ 25) (hQ : 0 < Q) (hPQ : P ≤ Q)
    (hlow : a * Q ≤ b * P) (hlt : D * b < a * N) : IsFar P Q N D := by
  refine .inl (Nat.lt_of_mul_lt_mul_left (a := b) ?_)
  have hsmall : b * N * P ≤ 2 ^ 50 * Q := by
    have hbN : b * N ≤ 2 ^ 25 * 2 ^ 25 := Nat.mul_le_mul hb.le hN.le
    exact Nat.mul_le_mul (by omega) hPQ
  have hlow' : N * (a * Q) ≤ N * (b * P) := Nat.mul_le_mul_left N hlow
  have hlt' : Q * (D * b + 1) ≤ Q * (a * N) := Nat.mul_le_mul_left Q hlt
  linarith

end Neighbours

/-! ## The neighbours of a quotient of powers -/

/-- The number of places that tell apart numbers of twenty-four bits with the exponent `-t`. -/
def places (t : ℕ) : ℕ := t * 30103 / 100000

/-- Fractions on both sides of `P / Q` with nothing simple between them, from two such fractions: the
mediant takes the place of one of them until no denominator between is small. -/
def neighbours (P Q : ℕ) : (fuel : ℕ) → ℕ × ℕ → ℕ × ℕ → (ℕ × ℕ) × (ℕ × ℕ)
  | 0, low, high => (low, high)
  | fuel + 1, low, high =>
    if 2 ^ 25 ≤ low.2 + high.2 then (low, high)
    else
      let mid := (low.1 + high.1, low.2 + high.2)
      if mid.1 * Q < mid.2 * P then neighbours P Q fuel mid high else neighbours P Q fuel low mid

/-- The bisection takes fewer steps than this. -/
def neighboursOf (t : ℕ) : (ℕ × ℕ) × (ℕ × ℕ) :=
  neighbours (5 ^ places t) (2 ^ (t + 1 - places t)) 2000 (0, 1) (1, 0)

/-- Two fractions are on both sides of `P / Q` and far away from it, and no fraction with a small
denominator is between them. -/
def Separate (P Q : ℕ) (low high : ℕ × ℕ) : Prop :=
  low.2 * high.1 = low.1 * high.2 + 1 ∧ 2 ^ 25 ≤ low.2 + high.2 ∧
    low.2 * P + 2 ^ 53 * (low.1 * Q) < 2 ^ 53 * (low.2 * P) ∧
    high.2 * P + 2 ^ 53 * (high.2 * P) < 2 ^ 53 * (high.1 * Q)

instance (P Q : ℕ) (low high : ℕ × ℕ) : Decidable (Separate P Q low high) :=
  inferInstanceAs (Decidable (_ ∧ _))

/-- The bisection finds such fractions, but for one exponent. -/
theorem separate_neighboursOf : ∀ t < 150, 44 ≤ t → t ≠ 107 →
    Separate (5 ^ places t) (2 ^ (t + 1 - places t)) (neighboursOf t).1 (neighboursOf t).2 := by
  decide +kernel

theorem IsFar.of_separate {P Q N D : ℕ} {low high : ℕ × ℕ} (h : Separate P Q low high) (hN : 0 < N)
    (hN' : N < 2 ^ 25) : IsFar P Q N D := by
  obtain ⟨hdet, hsum, hlow, hhigh⟩ := h
  rcases le_or_le_of_neighbours hdet (Nat.lt_of_lt_of_le hN' hsum) with hle | hle
  · exact isFar_of_le hN hlow hle
  · exact isFar_of_ge hN hhigh hle

/-- For the one exponent that is left, the bisection ends at `7038531 / 22841339` and
`4466801 / 14495598`, and the first of these is too near. -/
theorem isFar_exception {N D : ℕ} (hN : 0 < N) (hN' : N < 2 ^ 25) (hne : N ≠ 22841339) :
    IsFar (5 ^ places 107) (2 ^ (107 + 1 - places 107)) N D := by
  rcases le_or_le_of_neighbours (a := 7038531) (b := 22841339) (c := 4466801) (d := 14495598)
    (D := D) rfl (by omega : N < _) with hle | hle
  · -- the fraction in lowest terms has the denominator `22841339`, and twice that is not small
    refine isFar_of_lt (b := 22841339) (a := 7038531) hN' (by decide) (by decide) (by decide)
      (by decide) (Nat.lt_of_le_of_ne hle fun heq => hne ?_)
    have hdvd : 22841339 ∣ 7038531 * N := ⟨D, by rw [← heq, Nat.mul_comm]⟩
    obtain ⟨k, rfl⟩ := (by decide : Nat.Coprime 22841339 7038531).dvd_of_dvd_mul_left hdvd
    omega
  · exact isFar_of_ge hN (by decide) hle

/-- Where a decimal has few places, an odd number of steps is never equal to it, and a difference of
one is enough. -/
theorem isFar_of_few {P Q N D : ℕ} (hP : P < 2 ^ 28) (hPodd : P % 2 = 1) (hQ : Q % 2 = 0)
    (hN : N < 2 ^ 25) (hodd : N % 2 = 1) : IsFar P Q N D := by
  have hne : N * P % 2 ≠ D * Q % 2 := by
    rw [Nat.mul_mod, Nat.mul_mod D, hodd, hPodd, hQ]
    simp
  have hsmall : N * P < 2 ^ 53 :=
    (Nat.mul_lt_mul'' hN hP).trans_eq (by norm_num)
  rcases Nat.lt_trichotomy (N * P) (D * Q) with hlt | heq | hlt
  · exact .inr (by omega)
  · exact absurd (congrArg (· % 2) heq) hne
  · exact .inl (by omega)

/-- **Decimals stay away from halfway points**, with one exception. -/
theorem isFar_of_odd {t N D : ℕ} (ht : 24 ≤ t) (ht' : t < 150) (hodd : N % 2 = 1)
    (hN : N < 2 ^ 25) (hexcept : t = 107 → N ≠ 22841339) :
    IsFar (5 ^ places t) (2 ^ (t + 1 - places t)) N D := by
  have hpos : 0 < N := by omega
  rcases Nat.lt_or_ge t 44 with hfew | hmany
  · have hbounds : ∀ t < 44, 24 ≤ t → 5 ^ places t < 2 ^ 28 ∧ 5 ^ places t % 2 = 1 ∧
        2 ^ (t + 1 - places t) % 2 = 0 := by decide +kernel
    obtain ⟨hP, hPodd, hQ⟩ := hbounds t hfew ht
    exact isFar_of_few hP hPodd hQ hN hodd
  · by_cases h107 : t = 107
    · subst h107
      exact isFar_exception hpos hN (hexcept rfl)
    · exact .of_separate (separate_neighboursOf t ht' hmany h107) hpos hN

/-! ## As rational numbers -/

/-- With fewer places the step of a decimal is longer than that of the numbers. -/
theorem places_spec : ∀ t < 150,
    2 ^ 28 * 2 ^ t + 10 ^ (places t + 1) < 2 ^ 28 * 10 ^ (places t + 1) := by
  decide +kernel

theorem places_le (t : ℕ) : places t ≤ t := by
  rw [places]
  omega

/-- What the length of a step says about its places. -/
theorem neg_places_le {t : ℕ} {power : ℤ} (ht : t < 150)
    (hstep : (2 ^ 28 - 1 : ℚ) ≤ 2 ^ 28 * 2 ^ t * 10 ^ power) : -(places t : ℤ) ≤ power := by
  by_contra hlt
  have hpower : (10 : ℚ) ^ power ≤ 10 ^ (-(places t + 1 : ℕ) : ℤ) :=
    zpow_le_zpow_right₀ (by norm_num) (by push_cast; omega)
  have hspec : (2 ^ 28 * 2 ^ t + 10 ^ (places t + 1) : ℚ) < 2 ^ 28 * 10 ^ (places t + 1) := by
    exact_mod_cast places_spec t ht
  rw [zpow_neg, zpow_natCast] at hpower
  have hten : (0 : ℚ) < 10 ^ (places t + 1) := by positivity
  have hle := hstep.trans (mul_le_mul_of_nonneg_left hpower (by positivity))
  rw [← div_eq_mul_inv, le_div_iff₀ hten] at hle
  linarith

/-- **No decimal with steps that are not much shorter than `2 ^ -t` is next to a point halfway
between two numbers**, with one exception. -/
theorem lt_abs_sub {t N count : ℕ} {power : ℤ} (ht : 24 ≤ t) (ht' : t < 150) (hodd : N % 2 = 1)
    (hN : N < 2 ^ 25) (hexcept : t = 107 → N ≠ 22841339)
    (hstep : (2 ^ 28 - 1 : ℚ) ≤ 2 ^ 28 * 2 ^ t * 10 ^ power) :
    (N / 2 ^ (t + 1) / 2 ^ 53 : ℚ) < |(count : ℚ) * 10 ^ power - N / 2 ^ (t + 1)| := by
  have hplaces := neg_places_le ht' hstep
  obtain ⟨n, hn⟩ := Int.eq_ofNat_of_zero_le (by omega : 0 ≤ power + places t)
  obtain rfl : power = n - places t := by omega
  -- in units of `1 / (5 ^ places t * 2 ^ (t + 1))` both numbers are whole
  have hunit : (0 : ℚ) < 5 ^ places t * 2 ^ (t + 1) := by positivity
  have htwo : (2 : ℚ) ^ (t + 1) = 2 ^ (t + 1 - places t) * 2 ^ places t := by
    rw [← pow_add, Nat.sub_add_cancel ((places_le t).trans t.le_succ)]
  have hdecimal : (count : ℚ) * 10 ^ ((n : ℤ) - places t) * (5 ^ places t * 2 ^ (t + 1))
      = (count * 10 ^ n : ℕ) * (2 ^ (t + 1 - places t) : ℕ) := by
    rw [zpow_sub₀ (by norm_num), zpow_natCast, zpow_natCast, htwo,
      show (10 : ℚ) ^ places t = 5 ^ places t * 2 ^ places t by rw [← mul_pow]; norm_num]
    push_cast
    field_simp
  have hhalf : (N : ℚ) / 2 ^ (t + 1) * (5 ^ places t * 2 ^ (t + 1)) = N * (5 ^ places t : ℕ) := by
    push_cast
    field_simp
  rcases isFar_of_odd (D := count * 10 ^ n) ht ht' hodd hN hexcept with hfar | hfar
  · have hfar' := (@Nat.cast_lt ℚ).mpr hfar
    refine lt_abs.mpr (.inr (lt_of_mul_lt_mul_right ?_ hunit.le))
    rw [div_mul_eq_mul_div, hhalf, neg_mul, sub_mul, hdecimal, hhalf]
    push_cast at hfar' ⊢
    linarith
  · have hfar' := (@Nat.cast_lt ℚ).mpr hfar
    refine lt_abs.mpr (.inl (lt_of_mul_lt_mul_right ?_ hunit.le))
    rw [div_mul_eq_mul_div, hhalf, sub_mul, hdecimal, hhalf]
    push_cast at hfar' ⊢
    linarith

end Halfway

end TapeLife
