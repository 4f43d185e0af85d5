import TapeLife.Proofs.Random.Cycle

/-!
# Proofs/Random/Mix — different places have different streams

    word ──+ c──▸ ──fold──▸ ──· d──▸ ──fold──▸ ──· d'──▸ ──fold──▸ mixed        d, d' odd

Adding is undone by subtracting, multiplying by an odd constant by multiplying by its inverse, and
what folds high bits into low ones leaves the highest bits alone, from which the others follow.  So
words that differ stay different through all of it (`mix64_bijective`).  Hence streams can be told
apart by their places and by their seeds (`Stream.ofPlace_inj`, `Stream.ofPlace_seed_inj`), and
drawing from them does not bring them together (`Stream.advance_injective`).
-/

namespace TapeLife

/-! ## Scrambling -/

/-- Multiplying by a constant that has an inverse. -/
theorem mul_left_injective_of_mul_eq_one {d inverse : UInt64} (h : inverse * d = 1) :
    Function.Injective (d * ·) := by
  intro x y hxy
  calc x = inverse * (d * x) := by rw [← UInt64.mul_assoc, h, UInt64.one_mul]
    _ = inverse * (d * y) := congrArg (inverse * ·) hxy
    _ = y := by rw [← UInt64.mul_assoc, h, UInt64.one_mul]

/-- Folding the high bits of a word into its low ones. -/
theorem xor_shiftRight_injective {k : UInt64} (hk : 0 < k.toNat % 64) :
    Function.Injective fun word : UInt64 => word ^^^ (word >>> k) := by
  intro x y hxy
  have hnat := congrArg UInt64.toNat hxy
  simp only [UInt64.toNat_xor, UInt64.toNat_shiftRight] at hnat
  refine UInt64.toNat_inj.mp (Stream.eq_of_shiftRight_xor_eq hk ?_)
  rw [Nat.xor_comm, hnat, Nat.xor_comm]

/-- **Scrambling can be undone**: every word comes from exactly one. -/
theorem mix64_bijective : Function.Bijective mix64 := by
  refine Finite.injective_iff_bijective.mp ?_
  have hadd : Function.Injective ((0x9e3779b97f4a7c15 : UInt64) + ·) := fun _ _ =>
    (UInt64.add_right_inj _).mp
  have hfirst : Function.Injective ((0xbf58476d1ce4e5b9 : UInt64) * ·) :=
    @mul_left_injective_of_mul_eq_one _ 0x96de1b173f119089 (by decide)
  have hsecond : Function.Injective ((0x94d049bb133111eb : UInt64) * ·) :=
    @mul_left_injective_of_mul_eq_one _ 0x319642b2d24d8ec3 (by decide)
  have hfold := fun k => @xor_shiftRight_injective k
  exact (hfold 31 (by decide)).comp <| hsecond.comp <| (hfold 27 (by decide)).comp <|
    hfirst.comp <| (hfold 30 (by decide)).comp hadd

/-- **Half words side by side are the digits of a word** in base `2 ^ 32`. -/
theorem toNat_packHalves (low high : UInt32) :
    (packHalves low.toUInt64 high.toUInt64).toNat = 2 ^ 32 * high.toNat + low.toNat := by
  have hlow := low.toNat_lt
  have hhigh := high.toNat_lt
  have hshift : high.toNat <<< 32 % 2 ^ 64 = 2 ^ 32 * high.toNat := by
    rw [Nat.shiftLeft_eq]
    omega
  simp only [packHalves, UInt64.toNat_or, UInt64.toNat_shiftLeft, UInt32.toNat_toUInt64,
    UInt64.reduceToNat, Nat.reduceMod, hshift]
  exact (Nat.two_pow_add_eq_or_of_lt hlow _).symm

/-- Half words that are packed can be unpacked. -/
theorem packHalves_inj {x y x' y' : UInt32} :
    packHalves x.toUInt64 y.toUInt64 = packHalves x'.toUInt64 y'.toUInt64 ↔ x = x' ∧ y = y' := by
  have hx := x.toNat_lt
  have hx' := x'.toNat_lt
  rw [← UInt64.toNat_inj, toNat_packHalves, toNat_packHalves, ← UInt32.toNat_inj,
    ← UInt32.toNat_inj]
  omega

/-- **Words that are equal after the same turn were equal before.** -/
theorem turnLeft_injective {count : UInt64} (hpos : 0 < count.toNat) (hlt : count.toNat < 64) :
    Function.Injective (turnLeft · count) := by
  have hsum : 2 ^ 64 = 2 ^ (64 - count.toNat + count.toNat) := by rw [Nat.sub_add_cancel hlt.le]
  have hback : (64 - count).toNat = 64 - count.toNat :=
    UInt64.toNat_sub_of_le _ _ (UInt64.le_iff_toNat_le.mpr hlt.le)
  have hturn : ∀ word : UInt64, (turnLeft word count).toNat
      = 2 ^ count.toNat * (word.toNat % 2 ^ (64 - count.toNat))
        + word.toNat / 2 ^ (64 - count.toNat) := fun word => by
    rw [turnLeft, UInt64.toNat_or, UInt64.toNat_shiftLeft, UInt64.toNat_shiftRight, hback,
      Nat.mod_eq_of_lt hlt, Nat.mod_eq_of_lt (by omega : 64 - count.toNat < 64), hsum, Nat.or_comm]
    exact Stream.or_shifts_eq (hsum ▸ word.toNat_lt)
  intro v w h
  have hnat := congrArg UInt64.toNat h
  simp only [hturn] at hnat
  exact UInt64.toNat_inj.mp
    (Stream.eq_of_exchanged_eq (hsum ▸ v.toNat_lt) (hsum ▸ w.toNat_lt) hnat)

namespace Stream

/-! ## Streams -/

/-- **Different places of a soup have different streams.** -/
theorem ofPlace_inj {seed : UInt64} {x y x' y' : UInt32} :
    ofPlace seed x y = ofPlace seed x' y' ↔ x = x' ∧ y = y' := by
  rw [ofPlace, ofPlace, Stream.mk.injEq, mix64_bijective.injective.eq_iff, UInt64.xor_right_inj,
    packHalves_inj]

/-- **A place has different streams for different seeds.** -/
theorem ofPlace_seed_inj {seed seed' : UInt64} {x y : UInt32} :
    ofPlace seed x y = ofPlace seed' x y ↔ seed = seed' := by
  rw [ofPlace, ofPlace, Stream.mk.injEq, mix64_bijective.injective.eq_iff, UInt64.xor_left_inj,
    mix64_bijective.injective.eq_iff]

theorem step_injective : Function.Injective step := by
  intro s t hst
  have hstate := (UInt64.add_right_inj _).mp (congrArg state hst)
  exact congrArg Stream.mk
    (@mul_left_injective_of_mul_eq_one _ 0xc097ef87329e28a5 (by decide) _ _ hstate)

/-- **Streams that differ stay different**, after any number of draws from each. -/
theorem advance_injective (n : Nat) : Function.Injective (advance n) := by
  induction n with
  | zero => exact Function.injective_id
  | succ n ih => exact ih.comp step_injective

end Stream

end TapeLife
