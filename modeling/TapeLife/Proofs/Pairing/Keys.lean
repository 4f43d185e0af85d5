import TapeLife.Pairing.Plan
import TapeLife.Proofs.Random.Mix

/-!
# Proofs/Pairing/Keys — no key and no draw comes twice

    epoch ──mix──▸ ⊕ shape ──mix──▸ key ──turn──▸ ⊕ mix (4 · cell + attempt) ──mix──▸ draw

Every arrow is a bijection of the words, and what is added on the way can be told from the sum.  So
fixed keys are the same only for the same epoch and shape (`shapeKey_epoch_inj`,
`shapeKey_shape_inj`), and under one key the words that decide about partners are the same only for
the same cell and attempt (`partnerWord_inj`), as long as the number of the attempt fits into a
word.
-/

namespace TapeLife

/-! ## Keys -/

/-- **On a grid every epoch has its own key.** -/
theorem shapeKey_epoch_inj {epoch epoch' width height : UInt32} :
    shapeKey epoch width height = shapeKey epoch' width height ↔ epoch = epoch' := by
  rw [shapeKey, shapeKey, mix64_bijective.injective.eq_iff, UInt64.xor_left_inj,
    mix64_bijective.injective.eq_iff, UInt32.toUInt64_inj]

/-- **In an epoch every shape has its own key.** -/
theorem shapeKey_shape_inj {epoch width height width' height' : UInt32} :
    shapeKey epoch width height = shapeKey epoch width' height' ↔
      width = width' ∧ height = height' := by
  rw [shapeKey, shapeKey, mix64_bijective.injective.eq_iff, UInt64.xor_right_inj, packHalves_inj]

/-! ## Partners -/

/-- The attempts of all cells have different numbers, and few enough of them fit into a word. -/
theorem ofNat_attempt_inj {i j a b : ℕ} (hi : i < 2 ^ 62) (hj : j < 2 ^ 62)
    (ha : a < attemptsPerCell) (hb : b < attemptsPerCell) :
    UInt64.ofNat (i * attemptsPerCell + a) = UInt64.ofNat (j * attemptsPerCell + b) ↔
      i = j ∧ a = b := by
  rw [attemptsPerCell] at *
  have hfits : ∀ {k c : ℕ}, k < 2 ^ 62 → c < 4 → k * 4 + c < 2 ^ 64 := by omega
  rw [← UInt64.toNat_inj, UInt64.toNat_ofNat_of_lt' (hfits hi ha),
    UInt64.toNat_ofNat_of_lt' (hfits hj hb)]
  omega

/-- **Under one key every attempt of every cell has its own word.** -/
theorem partnerWord_inj (key : UInt64) {i j a b : ℕ} (hi : i < 2 ^ 62) (hj : j < 2 ^ 62)
    (ha : a < attemptsPerCell) (hb : b < attemptsPerCell) :
    partnerWord key i a = partnerWord key j b ↔ i = j ∧ a = b := by
  rw [partnerWord, partnerWord, UInt64.xor_right_inj, mix64_bijective.injective.eq_iff,
    ofNat_attempt_inj hi hj ha hb]

/-- **Under every key an attempt has its own word.** -/
theorem partnerWord_key_inj {key key' : UInt64} {i a : ℕ} :
    partnerWord key i a = partnerWord key' i a ↔ key = key' := by
  rw [partnerWord, partnerWord, UInt64.xor_left_inj,
    (turnLeft_injective (by decide) (by decide)).eq_iff]

end TapeLife
