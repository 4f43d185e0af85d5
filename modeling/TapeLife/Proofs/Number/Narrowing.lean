import TapeLife.Proofs.Decimal.Shortest
import TapeLife.Proofs.Number.Halfway

/-!
# Proofs/Number/Narrowing — decimals that are rounded twice

    M·2^q ──shortest──▸ decimal ──to 64 bits──▸ · ──to 32 bits──▸ M·2^q

The points halfway between two numbers of thirty-two bits are numbers of sixty-four bits, so the first
rounding does not go beyond them (`exists_ofRatio_double`).  It may come to rest on one of them, and
then the second rounding goes to the even side.  That takes a decimal right next to the point, which
has to be the nearest one of its step to the number in the middle, so its step is about as long as
the interval (`step_of_halfway`); and there is one such decimal only (`Single.ofBinary_shortest`).
-/

namespace TapeLife

namespace Binary

variable {mantissa num den : ℕ} {exponent : ℤ}

/-! ## The first rounding -/

/-- Rounding to multiples of a step does not go beyond a multiple. -/
theorem le_mul_of_near {count bound : ℕ} {step x : ℚ} (hstep : 0 < step)
    (hnear : |count * step - x| ≤ step / 2) (hle : x ≤ bound * step) :
    count * step ≤ bound * step := by
  have hlt : (count * step : ℚ) < (bound + 1) * step := by
    rw [abs_le] at hnear
    linarith
  have hle' : count ≤ bound := by
    have hlt' := lt_of_mul_lt_mul_right hlt hstep.le
    have hlt'' : count < bound + 1 := by exact_mod_cast hlt'
    omega
  gcongr

theorem mul_le_of_near {count bound : ℕ} {step x : ℚ} (hstep : 0 < step)
    (hnear : |count * step - x| ≤ step / 2) (hle : bound * step ≤ x) :
    bound * step ≤ count * step := by
  have hlt : (bound * step : ℚ) < (count + 1) * step := by
    rw [abs_le] at hnear
    linarith
  have hle' : bound ≤ count := by
    have hlt' := lt_of_mul_lt_mul_right hlt hstep.le
    have hlt'' : bound < count + 1 := by exact_mod_cast hlt'
    omega
  gcongr

/-- A multiple of a step is a multiple of a shorter one. -/
theorem exists_eq_mul_zpow (count : ℕ) {e e' : ℤ} (h : e' ≤ e) :
    ∃ count' : ℕ, (count * 2 ^ e : ℚ) = count' * 2 ^ e' := by
  obtain ⟨n, hn⟩ := Int.eq_ofNat_of_zero_le (by omega : 0 ≤ e - e')
  refine ⟨count * 2 ^ n, ?_⟩
  obtain rfl : e = n + e' := by omega
  rw [zpow_add₀ two_ne_zero, zpow_natCast]
  push_cast
  ring

/-- The ends of the interval of a number are multiples of a quarter of its step. -/
theorem exists_quarters (f : BinaryFormat) (hmantissa : 0 < mantissa) (exponent : ℤ) :
    (∃ low : ℕ, (mantissa - gapBelow f mantissa exponent) * 2 ^ exponent
      = (low * 2 ^ (exponent - 2) : ℚ)) ∧
    ∃ high : ℕ, (mantissa + 1 / 2) * 2 ^ exponent = (high * 2 ^ (exponent - 2) : ℚ) := by
  rw [zpow_eq_four_quarters exponent, gapBelow]
  refine ⟨?_, 4 * mantissa + 2, by push_cast; ring⟩
  split
  · exact ⟨4 * mantissa - 1, by rw [Nat.cast_sub (by omega)]; push_cast; ring⟩
  · exact ⟨4 * mantissa - 2, by rw [Nat.cast_sub (by omega)]; push_cast; ring⟩

/-- **The first rounding** stays in the interval of a number of thirty-two bits, or comes to one of
its ends, and is close to what was rounded. -/
theorem exists_ofRatio_double (hcanonical : Canonical .single mantissa exponent)
    (hmantissa : 0 < mantissa) (hexponent : exponent ≤ 0) (hnum : 0 < num) (hden : 0 < den)
    (h : RoundsTo .single mantissa exponent (num / den)) :
    ∃ (m : ℕ) (q : ℤ), ofRatio .double false num den = .finite false m q ∧ m ≠ 0 ∧
      (mantissa - gapBelow .single mantissa exponent) * 2 ^ exponent ≤ (m * 2 ^ q : ℚ) ∧
      (m * 2 ^ q : ℚ) ≤ (mantissa + 1 / 2) * 2 ^ exponent ∧
      |(m * 2 ^ q : ℚ) - num / den| ≤ m * 2 ^ q / 2 ^ 53 := by
  have hsingle : BinaryFormat.single.fractionBits = 23 ∧
      BinaryFormat.single.leastExponent = -149 := by decide
  have hdouble : BinaryFormat.double.fractionBits = 52 ∧
      BinaryFormat.double.leastExponent = -1074 ∧
      BinaryFormat.double.greatestExponent = 971 := by decide
  have hleading := leadingExponent_le_of_roundsTo hcanonical hnum hden h
  have hleast := hcanonical.least_le
  have hgap := gapBelow_le .single mantissa exponent
  have hone : (1 : ℚ) ≤ mantissa := by exact_mod_cast hmantissa
  have hlow : exponent - 1 < leadingExponent num den + 1 := by
    obtain ⟨-, hhigh⟩ := leadingExponent_spec hnum hden
    refine (zpow_lt_zpow_iff_right₀ one_lt_two).mp (lt_of_le_of_lt ?_ (h.low.trans_lt hhigh))
    rw [zpow_sub_one₀ two_ne_zero, mul_comm]
    exact mul_le_mul_of_nonneg_right (by linarith) (by positivity)
  obtain ⟨e, he⟩ : ∃ e, leadingExponent num den = e + BinaryFormat.double.fractionBits :=
    ⟨_, (sub_add_cancel _ _).symm⟩
  obtain ⟨count, m, q, hround, hm, hvalue, hnear, hbottom⟩ :=
    exists_ofRatio hnum hden false he (by omega) (by omega)
  have hstep : (0 : ℚ) < 2 ^ e := by positivity
  obtain ⟨⟨low, hlow'⟩, high, hhigh'⟩ := exists_quarters .single hmantissa exponent
  obtain ⟨low', hlow''⟩ := exists_eq_mul_zpow low (by omega : e ≤ exponent - 2)
  obtain ⟨high', hhigh''⟩ := exists_eq_mul_zpow high (by omega : e ≤ exponent - 2)
  refine ⟨m, q, hround, hm, ?_, ?_, ?_⟩ <;> rw [hvalue]
  · rw [hlow', hlow'']
    exact mul_le_of_near hstep hnear (hlow'' ▸ hlow' ▸ h.low)
  · rw [hhigh', hhigh'']
    exact le_mul_of_near hstep hnear (hhigh'' ▸ hhigh' ▸ h.high)
  · refine hnear.trans ?_
    rw [hdouble.1, zpow_add₀ two_ne_zero] at hbottom
    norm_num at hbottom ⊢
    linarith

/-! ## The second rounding -/

/-- **A decimal that comes to rest halfway** has a step that is about as long as that of the
numbers. -/
theorem step_of_halfway {t N : ℕ} {power : ℤ} (hN : N < 2 ^ 25) {x v : ℚ}
    (hx : |N / 2 ^ (t + 1) - x| = 1 / 2 ^ (t + 1))
    (hv : 2 * |v - x| ≤ 10 ^ power)
    (hnear : |N / 2 ^ (t + 1) - v| ≤ N / 2 ^ (t + 1) / 2 ^ 53) :
    (2 ^ 28 - 1 : ℚ) ≤ 2 ^ 28 * 2 ^ t * 10 ^ power := by
  have hN' : (N : ℚ) ≤ 2 ^ 25 := by exact_mod_cast hN.le
  have hunit : (2 : ℚ) ^ t * 2 * (1 / 2 ^ (t + 1)) = 1 := by
    rw [← pow_succ]
    field_simp
  have hpos : (0 : ℚ) < 1 / 2 ^ (t + 1) := by positivity
  rw [div_eq_mul_one_div (N : ℚ)] at hx hnear
  generalize (1 / 2 ^ (t + 1) : ℚ) = unit at *
  have htriangle := abs_sub_le (N * unit) v x
  have hhalf : N * unit ≤ 2 ^ 25 * unit := mul_le_mul_of_nonneg_right hN' hpos.le
  have hpower : (1 - 1 / 2 ^ 28) * (2 * unit) ≤ 10 ^ power := by
    norm_num at hnear hhalf ⊢
    linarith
  calc (2 ^ 28 - 1 : ℚ) = 2 ^ 28 * (1 - 1 / 2 ^ 28) * (2 ^ t * 2 * unit) := by
        rw [hunit]
        norm_num
    _ = 2 ^ 28 * 2 ^ t * ((1 - 1 / 2 ^ 28) * (2 * unit)) := by ring
    _ ≤ 2 ^ 28 * 2 ^ t * 10 ^ power := mul_le_mul_of_nonneg_left hpower (by positivity)

section Odd

variable {t : ℕ} (hcanonical : Canonical .single mantissa (-t)) (hodd : mantissa % 2 = 1)
  (ht : 24 ≤ t) (hexcept : t = 107 → mantissa ≠ 11420669) {tie : Tie} {y : ℚ}
  (hnear : |y - (Decimal.shortest .single tie mantissa (-t)).value| ≤ y / 2 ^ 53)
include hcanonical hodd ht hexcept hnear

/-- The shortest decimal of a number does not come to rest halfway to a neighbour. -/
theorem not_halfway {N : ℕ} (hN : N = 2 * mantissa - 1 ∨ N = 2 * mantissa + 1) :
    y ≠ N / 2 ^ (t + 1) := by
  rintro rfl
  have hfractions : BinaryFormat.single.fractions = 8388608 := rfl
  have hleast : BinaryFormat.single.leastExponent = -149 := by decide
  obtain ⟨hlt, hle, -⟩ := hcanonical
  have hpower : mantissa ≠ BinaryFormat.single.fractions := by omega
  obtain ⟨count, power, hvalue, hstep⟩ := (Decimal.shortest_spec (by omega) tie).2 hpower
  rw [hvalue] at hnear
  have hx : |(N : ℚ) / 2 ^ (t + 1) - mantissa * 2 ^ (-t : ℤ)| = 1 / 2 ^ (t + 1) := by
    have hscaled : (mantissa * 2 ^ (-t : ℤ) : ℚ) = 2 * mantissa / 2 ^ (t + 1) := by
      rw [zpow_neg, zpow_natCast, pow_succ]
      field_simp
    rw [hscaled, ← sub_div, abs_div, abs_of_pos (by positivity : (0 : ℚ) < 2 ^ (t + 1))]
    obtain rfl | rfl := hN
    · rw [Nat.cast_sub (by omega)]
      push_cast
      norm_num
    · push_cast
      norm_num
  have hsteps := step_of_halfway (by omega) hx hstep hnear
  have hexcept' : t = 107 → N ≠ 22841339 := fun h107 => by
    have hne := hexcept h107
    omega
  have hsmall : N < 2 ^ 25 := by omega
  have hfar : (N / 2 ^ (t + 1) / 2 ^ 53 : ℚ) < |(count : ℚ) * 10 ^ power - N / 2 ^ (t + 1)| :=
    Halfway.lt_abs_sub ht (by omega) (by omega) hsmall hexcept' hsteps
  rw [abs_sub_comm] at hfar
  exact absurd hnear (not_le_of_gt hfar)

/-- **What the shortest decimal of an odd number is rounded to first** still rounds to it. -/
theorem roundsTo_of_odd
    (hlow : (mantissa - gapBelow .single mantissa (-t)) * 2 ^ (-t : ℤ) ≤ y)
    (hhigh : y ≤ (mantissa + 1 / 2) * 2 ^ (-t : ℤ)) : RoundsTo .single mantissa (-t) y := by
  have hfractions : BinaryFormat.single.fractions = 8388608 := rfl
  have hgap : gapBelow .single mantissa (-t) = 1 / 2 := if_neg fun h => by omega
  refine ⟨hlow, hhigh, .inr ⟨lt_of_le_of_ne hlow fun heq => ?_, lt_of_le_of_ne hhigh fun heq => ?_⟩⟩
  · refine not_halfway hcanonical hodd ht hexcept hnear (.inl rfl) ?_
    rw [← heq, hgap, zpow_neg, zpow_natCast, pow_succ, Nat.cast_sub (by omega)]
    push_cast
    field_simp
  · refine not_halfway hcanonical hodd ht hexcept hnear (.inr rfl) ?_
    rw [heq, zpow_neg, zpow_natCast, pow_succ]
    push_cast
    field_simp

end Odd

end Binary

namespace Single

open Binary

variable {x : Single} {mantissa num den : ℕ} {exponent : ℤ}

/-- The rate whose shortest decimal comes to rest halfway to its upper neighbour. -/
def unstable : Single := ⟨0x15ae43fd⟩

/-- **A fraction is read back from its shortest decimal**, by way of sixty-four bits, with one
exception. -/
theorem ofBinary_shortest (h : x.value = .finite false mantissa exponent) (hmantissa : 0 < mantissa)
    (hle : (mantissa * 2 ^ exponent : ℚ) ≤ 1) (hexcept : x ≠ unstable) {tie : Tie} (hnum : 0 < num)
    (hden : 0 < den)
    (hvalue : (num / den : ℚ) = (Decimal.shortest .single tie mantissa exponent).value) :
    ∃ (m : ℕ) (q : ℤ), ofRatio .double false num den = .finite false m q ∧
      ofBinary (.finite false m q) = x := by
  have hcanonical := canonical_of_value h
  have hrounds : RoundsTo .single mantissa exponent
      (Decimal.shortest .single tie mantissa exponent).value := (Decimal.shortest_spec hmantissa tie).1
  have hexponent : exponent ≤ 0 := by
    by_contra hpos
    have htwo : (2 : ℚ) ^ (1 : ℤ) ≤ 2 ^ exponent := zpow_le_zpow_right₀ one_le_two (by omega)
    have hone : (1 : ℚ) ≤ mantissa := by exact_mod_cast hmantissa
    have hprod := mul_le_mul hone htwo (by norm_num) (by linarith)
    norm_num at hprod
    linarith
  obtain ⟨m, q, hround, hm, hlow, hhigh, hnear⟩ :=
    exists_ofRatio_double hcanonical hmantissa hexponent hnum hden (hvalue ▸ hrounds)
  refine ⟨m, q, hround, ofBinary_eq h hm (hexponent.trans (by decide)) ?_⟩
  rcases Nat.mod_two_eq_zero_or_one mantissa with heven | hodd
  · exact ⟨hlow, hhigh, .inl heven⟩
  · obtain ⟨t, rfl⟩ : ∃ t : ℕ, exponent = -t := ⟨exponent.natAbs, by omega⟩
    have hexcept' : t = 107 → mantissa ≠ 11420669 := by
      rintro rfl rfl
      have hbits : x.bits.toNat = 363742205 := (toBits_value h).symm.trans (by decide)
      exact hexcept (congrArg Single.mk (UInt32.toNat_inj.mp hbits))
    have ht : 24 ≤ t := by
      by_contra hlarge
      have hnormal : 8388608 ≤ mantissa := hcanonical.normal.resolve_right (by
        rw [show BinaryFormat.single.leastExponent = -149 by decide]
        omega)
      have hodd' : (2 ^ 23 + 1 : ℚ) ≤ mantissa := by exact_mod_cast (by omega : 2 ^ 23 + 1 ≤ mantissa)
      have hpower : (2 : ℚ) ^ (-23 : ℤ) ≤ 2 ^ (-t : ℤ) := zpow_le_zpow_right₀ one_le_two (by omega)
      have hprod := mul_le_mul hodd' hpower (by positivity) (by positivity)
      norm_num at hprod hle
      linarith
    exact roundsTo_of_odd hcanonical hodd ht hexcept' (hvalue ▸ hnear) hlow hhigh

end Single

end TapeLife
