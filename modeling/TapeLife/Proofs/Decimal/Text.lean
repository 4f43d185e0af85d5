import TapeLife.Decimal.Reading
import TapeLife.Proofs.Checkpoint.Name
import TapeLife.Proofs.Number.Narrowing
import TapeLife.Yaml.Scalar
import TapeLife.Yaml.Writer

/-!
# Proofs/Decimal/Text — a rate is read back from its text

    value ──shortest──▸ decimal ──layout──▸ text ──read?──▸ decimal ──▸ sixty-four bits ──▸ value

However a decimal is laid out, what is read has the same value (`Decimal.exists_read?_layout`), and is
rounded as a quotient of that value (`Decimal.exists_toBinary`).  So a fraction that is written is
read back, but for the one that is rounded twice (`Single.double?_render`).
-/

namespace TapeLife

namespace Decimal

variable {d : Decimal}

/-! ## Numerals -/

section Numeral

variable {front behind tail : List Char} (hfront : ∀ c ∈ front, isDecimalDigit c = true)
  (hbehind : ∀ c ∈ behind, isDecimalDigit c = true) (hne : front ≠ [])
  (htail : ∀ c ∈ tail.head?, c = 'e')

include htail in
/-- Digits end before a power of ten. -/
theorem takeWhile_append_tail {ds : List Char} (hds : ∀ c ∈ ds, isDecimalDigit c = true) :
    (ds ++ tail).takeWhile isDecimalDigit = ds ∧ (ds ++ tail).dropWhile isDecimalDigit = tail := by
  rw [List.takeWhile_append_of_pos hds, List.dropWhile_append_of_pos hds]
  cases tail with
  | nil => simp
  | cons c tail =>
    obtain rfl : c = 'e' := htail c (by simp)
    have hmark : isDecimalDigit 'e' = false := by decide
    simp [hmark]

include hfront hne htail in
/-- A numeral without a point. -/
theorem read?_append : read? (front ++ tail) = (readExponent? tail).map fun power =>
    ⟨Nat.ofDigitChars 10 front 0, power⟩ := by
  obtain ⟨htake, hdrop⟩ := takeWhile_append_tail htail hfront
  rw [read?, htake, hdrop]
  cases tail with
  | nil => simp [hne]
  | cons c tail =>
    obtain rfl : c = 'e' := htail c (by simp)
    simp [hne]

include hfront hbehind hne htail in
/-- A numeral with a point. -/
theorem read?_append_point :
    read? (front ++ '.' :: (behind ++ tail)) = (readExponent? tail).map fun power =>
      ⟨Nat.ofDigitChars 10 (front ++ behind) 0, power - behind.length⟩ := by
  have hpoint : isDecimalDigit '.' = false := by decide
  obtain ⟨htake, hdrop⟩ := takeWhile_append_tail htail hbehind
  rw [read?, List.takeWhile_append_of_pos hfront, List.dropWhile_append_of_pos hfront]
  simp [hpoint, hne, htake, hdrop]

end Numeral

/-- **A power of ten is read back**, below zero with its sign. -/
theorem readExponent?_power (power : ℤ) : readExponent?
    ('e' :: ((if power < 0 then ['-'] else []) ++ digits power.natAbs)) = some power := by
  rw [readExponent?, if_pos (.inl rfl)]
  split
  · rename_i hneg
    rw [List.singleton_append, readWhole?, readDigits?_digits]
    change some (-(power.natAbs : ℤ)) = some power
    exact congrArg some (by omega)
  · rename_i hpos
    rw [List.nil_append, readWhole?, readNatural?_digits]
    · change some (power.natAbs : ℤ) = some power
      exact congrArg some (by omega)
    · exact digits_ne_cons (by decide) power.natAbs

/-! ## Layouts -/

theorem isDecimalDigit_of_mem_replicate {n : ℕ} {c : Char} (hc : c ∈ List.replicate n '0') :
    isDecimalDigit c = true := by
  obtain rfl := List.eq_of_mem_replicate hc
  decide

theorem ofDigitChars_digits (n : ℕ) : Nat.ofDigitChars 10 (digits n) 0 = n :=
  Nat.ofDigitChars_ten_toDigits

theorem isDecimalDigit_of_mem_padded {zeros n : ℕ} {c : Char}
    (hc : c ∈ List.replicate zeros '0' ++ digits n) : isDecimalDigit c = true :=
  (List.mem_append.mp hc).elim isDecimalDigit_of_mem_replicate isDecimalDigit_of_mem_digits

/-- Padded digits are enough to have one in front of so many places. -/
theorem succ_le_length_padded (places n : ℕ) :
    places + 1 ≤ (List.replicate (places + 1 - (digits n).length) '0' ++ digits n).length := by
  rw [List.length_append, List.length_replicate]
  omega

/-- There is a first digit. -/
theorem exists_digits_eq_cons (n : ℕ) : ∃ first more, digits n = first :: more ∧
    (∀ c ∈ [first], isDecimalDigit c = true) ∧ ∀ c ∈ more, isDecimalDigit c = true := by
  obtain ⟨first, more, hdigits⟩ := List.exists_cons_of_ne_nil (Nat.toDigits_ne_nil : digits n ≠ [])
  have hall : ∀ c ∈ first :: more, isDecimalDigit c = true := fun c hc =>
    isDecimalDigit_of_mem_digits (hdigits ▸ hc)
  obtain ⟨hfirst, hmore⟩ := List.forall_mem_cons.mp hall
  exact ⟨first, more, hdigits, List.forall_mem_singleton.mpr hfirst, hmore⟩

/-- A whole number with a zero behind the point. -/
theorem read?_whole (h : 0 ≤ d.exponent) : read? (d.positional ++ ['.', '0'])
    = some ⟨d.significand * 10 ^ (d.exponent.toNat + 1), -1⟩ := by
  have hfront : ∀ c ∈ digits d.significand ++ List.replicate d.exponent.toNat '0',
      isDecimalDigit c = true := fun c hc => (List.mem_append.mp hc).elim
    isDecimalDigit_of_mem_digits isDecimalDigit_of_mem_replicate
  have hread : read? (digits d.significand ++ List.replicate d.exponent.toNat '0'
      ++ '.' :: (['0'] ++ [])) = _ :=
    read?_append_point hfront (List.all_eq_true.mp (by decide))
      (by simp [digits, Nat.toDigits_ne_nil]) (by simp)
  rw [positional, if_pos h]
  refine hread.trans ?_
  rw [Nat.ofDigitChars_append, Nat.ofDigitChars_append, ofDigitChars_digits,
    Nat.ofDigitChars_replicate_zero]
  simp [readExponent?, Nat.ofDigitChars_cons, pow_succ, Nat.mul_comm, Nat.mul_left_comm]

/-- A number with places behind the point. -/
theorem read?_places (h : d.exponent < 0) : read? d.positional = some d := by
  obtain ⟨n, hn⟩ : ∃ n : ℕ, d.exponent = -n := ⟨d.exponent.natAbs, by omega⟩
  have hdigits : ∀ c ∈ List.replicate (n + 1 - (digits d.significand).length) '0'
      ++ digits d.significand, isDecimalDigit c = true := fun c hc => isDecimalDigit_of_mem_padded hc
  have hvalue : Nat.ofDigitChars 10 (List.replicate (n + 1 - (digits d.significand).length) '0'
      ++ digits d.significand) 0 = d.significand := by
    rw [Nat.ofDigitChars_append, Nat.ofDigitChars_replicate_zero, Nat.mul_zero, ofDigitChars_digits]
  have hlength := succ_le_length_padded n d.significand
  rw [positional, if_neg (by omega), hn, neg_neg, Int.toNat_natCast]
  simp only
  generalize List.replicate _ '0' ++ digits d.significand = padded at *
  have hfront : padded.take (padded.length - n) ≠ [] := by
    rw [← List.length_pos_iff, List.length_take]
    omega
  have hread : read? (padded.take (padded.length - n)
      ++ '.' :: (padded.drop (padded.length - n) ++ [])) = _ :=
    read?_append_point (fun c hc => hdigits c (List.mem_of_mem_take hc))
      (fun c hc => hdigits c (List.mem_of_mem_drop hc)) hfront (by simp)
  rw [List.append_nil, List.take_append_drop, hvalue] at hread
  refine hread.trans ?_
  obtain ⟨significand, exponent⟩ := d
  simp only [readExponent?, Option.map_some, List.length_drop]
  congr 2
  simp only at hn
  omega

/-- A number with a power of ten. -/
theorem read?_exponential (d : Decimal) : read? d.exponential = some d := by
  obtain ⟨first, more, hdigits, hfront, hmore⟩ := exists_digits_eq_cons d.significand
  have hvalue := ofDigitChars_digits d.significand
  rw [hdigits] at hvalue
  rw [exponential, scale, hdigits]
  cases more with
  | nil =>
    refine (read?_append hfront (by simp) (by simp)).trans
      ((congrArg _ (readExponent?_power _)).trans ?_)
    simp [hvalue]
  | cons second more =>
    refine (read?_append_point hfront hmore (by simp) (by simp)).trans
      ((congrArg _ (readExponent?_power _)).trans ?_)
    rw [List.singleton_append, hvalue]
    simp

/-- **However a decimal is laid out in a document, what is read has the same value.** -/
theorem exists_read?_layout (d : Decimal) :
    ∃ d', read? (Yaml.numberStyle.layout d).toList = some d' ∧ d'.value = d.value := by
  rw [NumberStyle.layout]
  split
  · split
    · rename_i hwhole
      refine ⟨_, (by simpa [Yaml.numberStyle] using read?_whole hwhole), ?_⟩
      obtain ⟨n, hn⟩ := Int.eq_ofNat_of_zero_le hwhole
      rw [value, value, hn, zpow_natCast, zpow_neg_one, Int.toNat_natCast, pow_succ]
      push_cast
      field_simp
    · rename_i hplaces
      exact ⟨d, by simpa using read?_places (Int.lt_of_not_ge hplaces), rfl⟩
  · exact ⟨d, by simpa using read?_exponential d, rfl⟩

/-! ## Characters -/

/-- A text that begins with a digit and has nothing in it but digits, points, signs and marks of a
power of ten. -/
structure IsNumeral (cs : List Char) : Prop where
  head : ∃ c ∈ cs.head?, isDecimalDigit c = true
  mem : ∀ c ∈ cs, isDecimalDigit c = true ∨ c ∈ ['.', 'e', '-']

theorem IsNumeral.append {front rest : List Char} (hne : front ≠ [])
    (hfront : ∀ c ∈ front, isDecimalDigit c = true)
    (hrest : ∀ c ∈ rest, isDecimalDigit c = true ∨ c ∈ ['.', 'e', '-']) :
    IsNumeral (front ++ rest) := by
  obtain ⟨c, front, rfl⟩ := List.exists_cons_of_ne_nil hne
  exact ⟨⟨c, rfl, hfront c List.mem_cons_self⟩,
    fun c hc => (List.mem_append.mp hc).elim (fun h => .inl (hfront c h)) (hrest c)⟩

theorem isNumeral_digits (n : ℕ) : IsNumeral (digits n) := by
  rw [← List.append_nil (digits n)]
  exact .append Nat.toDigits_ne_nil (fun c hc => isDecimalDigit_of_mem_digits hc) (by simp)

theorem isNumeral_positional (d : Decimal) (ending : List Char)
    (hending : ∀ c ∈ ending, isDecimalDigit c = true ∨ c ∈ ['.', 'e', '-']) :
    IsNumeral (d.positional ++ ending) := by
  rw [positional]
  split
  · refine (List.append_assoc _ _ _).symm ▸ .append Nat.toDigits_ne_nil
      (fun c hc => isDecimalDigit_of_mem_digits hc) fun c hc => ?_
    exact (List.mem_append.mp hc).elim (fun h => .inl (isDecimalDigit_of_mem_replicate h))
      (hending c)
  · have hdigits : ∀ c ∈ List.replicate ((-d.exponent).toNat + 1 - (digits d.significand).length) '0'
        ++ digits d.significand, isDecimalDigit c = true := fun c hc =>
      isDecimalDigit_of_mem_padded hc
    have hlength := succ_le_length_padded (-d.exponent).toNat d.significand
    simp only
    generalize List.replicate _ '0' ++ digits d.significand = padded at *
    refine (List.append_assoc _ _ _).symm ▸ .append ?_ (fun c hc =>
      hdigits c (List.mem_of_mem_take hc)) fun c hc => ?_
    · rw [← List.length_pos_iff, List.length_take]
      omega
    · obtain rfl | hc := List.mem_cons.mp hc
      · exact .inr (by decide)
      · exact (List.mem_append.mp hc).elim (fun h => .inl (hdigits c (List.mem_of_mem_drop h)))
          (hending c)

theorem isNumeral_exponential (d : Decimal) : IsNumeral d.exponential := by
  obtain ⟨first, more, hdigits, hfront, hmore⟩ := exists_digits_eq_cons d.significand
  have htail : ∀ c ∈ ('e' :: if d.scale < 0 then ['-'] else []) ++ digits d.scale.natAbs,
      isDecimalDigit c = true ∨ c ∈ ['.', 'e', '-'] := fun c hc => by
    obtain hc | hc := List.mem_append.mp hc
    · split at hc <;> simp_all
    · exact .inl (isDecimalDigit_of_mem_digits hc)
  rw [exponential, hdigits]
  generalize ('e' :: if d.scale < 0 then ['-'] else []) ++ digits d.scale.natAbs = tail at *
  cases more with
  | nil => exact .append (by simp : [first] ≠ []) hfront htail
  | cons second more =>
    have hnumeral : IsNumeral ([first] ++ '.' :: (second :: more ++ tail)) := by
      refine .append (by simp) hfront fun c hc => ?_
      obtain rfl | hc := List.mem_cons.mp hc
      · exact .inr (by decide)
      · exact (List.mem_append.mp hc).elim (fun h => .inl (hmore c h)) (htail c)
    exact hnumeral

theorem isNumeral_layout (d : Decimal) : IsNumeral (Yaml.numberStyle.layout d).toList := by
  rw [NumberStyle.layout]
  split
  · rw [String.toList_append, String.toList_ofList]
    refine isNumeral_positional d _ ?_
    split <;> simp [Yaml.numberStyle, isDecimalDigit]
  · rw [String.toList_ofList]
    exact isNumeral_exponential d

/-! ## Rounding -/

/-- The first digit of a decimal stands for the power of ten at or below it. -/
theorem scale_spec (h : 0 < d.significand) :
    (10 : ℚ) ^ d.scale ≤ d.value ∧ d.value < 10 ^ (d.scale + 1) := by
  obtain ⟨len, hlen⟩ : ∃ len, (digits d.significand).length = len + 1 :=
    Nat.exists_eq_succ_of_ne_zero (by simp [digits, Nat.toDigits_ne_nil])
  have hhigh : d.significand < 10 ^ (len + 1) :=
    (Nat.length_toDigits_le_iff (by decide) (by omega)).mp hlen.le
  have hlow : 10 ^ len ≤ d.significand := by
    rcases Nat.eq_zero_or_pos len with rfl | hpos
    · exact h
    · by_contra hlt
      have hle := (Nat.length_toDigits_le_iff (b := 10) (by decide) hpos).mpr (Nat.lt_of_not_le hlt)
      rw [digits] at hlen
      omega
  have hten := ten_zpow_pos d.exponent
  have hlow' : (10 ^ len : ℚ) ≤ d.significand := by exact_mod_cast hlow
  have hhigh' : (d.significand : ℚ) < 10 ^ (len + 1) := by exact_mod_cast hhigh
  rw [scale, hlen, Nat.add_sub_cancel, value, add_assoc, add_comm, ← Nat.cast_succ,
    zpow_add₀ (by norm_num), add_comm, zpow_add₀ (by norm_num), zpow_natCast, zpow_natCast]
  exact ⟨mul_le_mul_of_nonneg_right hlow' hten.le, mul_lt_mul_of_pos_right hhigh' hten⟩

/-- **A decimal is rounded as a quotient of its value.** -/
theorem exists_toBinary (f : BinaryFormat) (negative : Bool) (hlow : 10 ^ (-400 : ℤ) ≤ d.value)
    (hhigh : d.value < 10 ^ (400 : ℤ)) : ∃ num den : ℕ, 0 < num ∧ 0 < den ∧
      (num / den : ℚ) = d.value ∧ d.toBinary f negative = .ofRatio f negative num den := by
  have hpos : 0 < d.significand := by
    refine Nat.pos_of_ne_zero fun hzero => ?_
    rw [value, hzero, Nat.cast_zero, zero_mul] at hlow
    exact absurd (ten_zpow_pos (-400)) (not_lt_of_ge hlow)
  obtain ⟨hscale, hscale'⟩ := scale_spec hpos
  have hle : d.scale < 400 :=
    (zpow_lt_zpow_iff_right₀ (by norm_num)).mp (hscale.trans_lt hhigh)
  have hge : -400 < d.scale + 1 :=
    (zpow_lt_zpow_iff_right₀ (by norm_num)).mp (hlow.trans_lt hscale')
  rw [toBinary, if_neg (by omega), if_neg (by omega)]
  split
  · rename_i hwhole
    obtain ⟨n, hn⟩ := Int.eq_ofNat_of_zero_le hwhole
    refine ⟨d.significand * 10 ^ n, 1, by positivity, Nat.one_pos, ?_, by rw [hn]; rfl⟩
    rw [value, hn, zpow_natCast]
    push_cast
    rw [div_one]
  · rename_i hplaces
    obtain ⟨n, hn⟩ : ∃ n : ℕ, d.exponent = -n := ⟨d.exponent.natAbs, by omega⟩
    refine ⟨d.significand, 10 ^ n, hpos, by positivity, ?_, by rw [hn, neg_neg]; rfl⟩
    rw [value, hn, zpow_neg, zpow_natCast, div_eq_mul_inv]
    push_cast
    rfl

end Decimal

/-! ## Rates -/

theorem ne_of_isDecimalDigit {c mark : Char} (hc : isDecimalDigit c = true)
    (hmark : isDecimalDigit mark = false) : c ≠ mark := by
  rintro rfl
  rw [hc] at hmark
  cases hmark

theorem toLower_of_isDecimalDigit {c : Char} (hc : isDecimalDigit c = true) : c.toLower = c := by
  simp only [isDecimalDigit, Bool.and_eq_true, decide_eq_true_eq, Char.le_def] at hc
  refine dif_neg ?_
  rintro ⟨hcapital, -⟩
  exact absurd (UInt32.le_trans hcapital hc.2) (by decide)

/-- Text that begins with a digit is a floating-point number if it is a numeral. -/
theorem Yaml.double?_of_digit {c : Char} {cs : List Char} (hc : isDecimalDigit c = true) :
    double? (c :: cs) = ((Decimal.read? (c :: cs)).map (·.toBinary .double false)).filter
      Binary.isFinite := by
  have hplus := ne_of_isDecimalDigit hc (by decide : isDecimalDigit '+' = false)
  have hminus := ne_of_isDecimalDigit hc (by decide : isDecimalDigit '-' = false)
  have hpoint := ne_of_isDecimalDigit hc (by decide : isDecimalDigit '.' = false)
  have hinf := ne_of_isDecimalDigit hc (by decide : isDecimalDigit 'i' = false)
  have hnan := ne_of_isDecimalDigit hc (by decide : isDecimalDigit 'n' = false)
  simp [double?, readBinary?, readMagnitude?, isWord, toLower_of_isDecimalDigit hc, hplus, hminus,
    hpoint, hinf, hnan, ← String.toList_inj]

namespace Single

open Binary

variable {x : Single} {mantissa : ℕ} {exponent : ℤ}

/-- The shortest decimal of a positive number is within the range of what is read. -/
theorem shortest_range (hcanonical : Canonical .single mantissa exponent) (hmantissa : 0 < mantissa)
    (hle : (mantissa * 2 ^ exponent : ℚ) ≤ 1) (tie : Tie) :
    10 ^ (-400 : ℤ) ≤ (Decimal.shortest .single tie mantissa exponent).value ∧
      (Decimal.shortest .single tie mantissa exponent).value < 10 ^ (400 : ℤ) := by
  have hrounds : RoundsTo .single mantissa exponent
      (Decimal.shortest .single tie mantissa exponent).value := (Decimal.shortest_spec hmantissa tie).1
  have hgap := gapBelow_le .single mantissa exponent
  have hone : (1 : ℚ) ≤ mantissa := by exact_mod_cast hmantissa
  have hleast : (2 : ℚ) ^ (-149 : ℤ) ≤ 2 ^ exponent :=
    zpow_le_zpow_right₀ one_le_two (hcanonical.least_le.trans' (by decide))
  have hstep : (0 : ℚ) < 2 ^ exponent := by positivity
  have htop : (1 / 2 : ℚ) * 2 ^ exponent ≤ mantissa * 2 ^ exponent :=
    mul_le_mul_of_nonneg_right (by linarith) hstep.le
  constructor
  · calc (10 : ℚ) ^ (-400 : ℤ) ≤ 10 ^ (-50 : ℤ) := zpow_le_zpow_right₀ (by norm_num) (by decide)
      _ ≤ 1 / 2 * 2 ^ (-149 : ℤ) := by norm_num
      _ ≤ 1 / 2 * 2 ^ exponent := mul_le_mul_of_nonneg_left hleast (by norm_num)
      _ ≤ (mantissa - gapBelow .single mantissa exponent) * 2 ^ exponent :=
        mul_le_mul_of_nonneg_right (by linarith) hstep.le
      _ ≤ (Decimal.shortest .single tie mantissa exponent).value := hrounds.low
  · calc (Decimal.shortest .single tie mantissa exponent).value
        ≤ (mantissa + 1 / 2) * 2 ^ exponent := hrounds.high
      _ = mantissa * 2 ^ exponent + 1 / 2 * 2 ^ exponent := add_mul ..
      _ < 10 ^ (1 : ℤ) := by norm_num at htop hle ⊢; linarith
      _ ≤ 10 ^ (400 : ℤ) := zpow_le_zpow_right₀ (by norm_num) (by decide)

/-- A number between zero and one is a zero of either sign, or positive and at most one. -/
theorem fraction_cases (hx : x.isFraction = true) :
    (∃ negative exponent, x.value = .finite negative 0 exponent) ∨
      ∃ mantissa exponent, x.value = .finite false mantissa exponent ∧ 0 < mantissa ∧
        (mantissa * 2 ^ exponent : ℚ) ≤ 1 := by
  rw [isFraction] at hx
  split at hx
  · rename_i negative mantissa exponent hvalue
    rcases Nat.eq_zero_or_pos mantissa with rfl | hpos
    · exact .inl ⟨negative, exponent, hvalue⟩
    · have hden : 0 < (scaleRatio mantissa 1 exponent).2 := scaleRatio_den_pos Nat.one_pos exponent
      have hquot := scaleRatio_div mantissa 1 exponent
      rw [Nat.cast_one, div_one] at hquot
      simp only [Bool.or_eq_true, beq_iff_eq, hpos.ne', false_or, Bool.and_eq_true,
        Bool.not_eq_true', decide_eq_true_eq] at hx
      obtain ⟨rfl, hle⟩ := hx
      refine .inr ⟨mantissa, exponent, hvalue, hpos, ?_⟩
      rw [← hquot, div_le_one (Nat.cast_pos.mpr hden)]
      exact_mod_cast hle
  · cases hx

/-- A zero has the pattern of its sign. -/
theorem ofBinary_zero {negative : Bool} (h : x.value = .finite negative 0 exponent) (q : ℤ) :
    ofBinary (.finite negative 0 q) = x := by
  have hexponent : exponent = BinaryFormat.single.leastExponent :=
    (canonical_of_value h).normal.resolve_left (by decide)
  subst hexponent
  rw [ofBinary, roundTo, if_pos rfl, toBits_value h, UInt32.ofNat_toNat]

/-- **A rate is read back from its text**, with one exception. -/
theorem double?_render (hx : x.isFraction = true) (hexcept : x ≠ unstable) :
    (Yaml.double? (Yaml.numberStyle.render x).toList).map ofBinary = some x := by
  rcases fraction_cases hx with ⟨negative, exponent, hvalue⟩ | ⟨mantissa, exponent, hvalue, hpos, hle⟩
  · have hread : Yaml.double? (signed negative (Yaml.numberStyle.layout ⟨0, 0⟩)).toList
        = some (.finite negative 0 (-1074)) := by
      cases negative <;> decide
    have hrender : Yaml.numberStyle.render x = signed negative (Yaml.numberStyle.layout ⟨0, 0⟩) := by
      rw [NumberStyle.render, hvalue]
      rfl
    rw [hrender, hread, Option.map_some, ofBinary_zero hvalue]
  · have hrender : Yaml.numberStyle.render x
        = Yaml.numberStyle.layout (.shortest .single .even mantissa exponent) := by
      rw [NumberStyle.render, hvalue]
      cases mantissa with
      | zero => exact absurd hpos (Nat.lt_irrefl 0)
      | succ mantissa => rfl
    obtain ⟨hlow, hhigh⟩ := shortest_range (canonical_of_value hvalue) hpos hle .even
    obtain ⟨d, hread, hd⟩ :=
      Decimal.exists_read?_layout (.shortest .single .even mantissa exponent)
    obtain ⟨num, den, hnum, hden, hquot, hbinary⟩ :=
      Decimal.exists_toBinary .double false (hd ▸ hlow) (hd ▸ hhigh)
    obtain ⟨m, q, hround, hback⟩ :=
      ofBinary_shortest hvalue hpos hle hexcept hnum hden (hquot.trans hd)
    obtain ⟨c, hc, hdigit⟩ :=
      (Decimal.isNumeral_layout (.shortest .single .even mantissa exponent)).head
    rw [hrender]
    generalize (Yaml.numberStyle.layout _).toList = cs at *
    obtain ⟨rest, rfl⟩ : ∃ rest, cs = c :: rest := List.head?_eq_some_iff.mp hc
    rw [Yaml.double?_of_digit hdigit, hread, Option.map_some, hbinary, hround]
    exact congrArg some hback

/-- The exception is read as its upper neighbour. -/
theorem double?_render_unstable :
    (Yaml.double? (Yaml.numberStyle.render unstable).toList).map ofBinary = some ⟨0x15ae43fe⟩ := by
  decide +kernel

end Single

end TapeLife
