import Mathlib.Tactic.Ring
import TapeLife.Bytes.LittleEndian

/-!
# Proofs/Bytes/LittleEndian — bytes of a fixed length are numbers that fit into them

    n ──▸ n, n / 256, n / 256², …  each modulo 256 ──▸ n modulo 256 ^ k

Every byte of a number is a quotient of it (`littleEndian_eq_map`), and bytes that follow each other
count for as much as there are in front of them (`ofLittleEndian_append`).  Numbers below `256 ^ k`
and lists of `k` bytes are the same thing (`ofLittleEndian_eq_iff`), and words of 32 and of 64 bits
are told apart by their four and eight bytes.
-/

namespace TapeLife

/-! ## Places -/

/-- **The bytes of a number are its quotients**, as far as a byte can hold them. -/
theorem littleEndian_eq_map (k n : ℕ) :
    littleEndian k n = (List.range k).map fun i => UInt8.ofNat (n / 256 ^ i) := by
  induction k generalizing n with
  | zero => rfl
  | succ k ih =>
    rw [littleEndian, ih, List.range_succ_eq_map, List.map_cons, List.map_map, pow_zero,
      Nat.div_one]
    refine congrArg (_ :: ·) (List.map_congr_left fun i _ => ?_)
    rw [Function.comp_apply, Nat.div_div_eq_div_mul, pow_succ']

theorem ofLittleEndian_append (front rest : List UInt8) :
    ofLittleEndian (front ++ rest)
      = ofLittleEndian front + 256 ^ front.length * ofLittleEndian rest := by
  induction front with
  | nil => simp [ofLittleEndian]
  | cons b front ih =>
    rw [List.cons_append, ofLittleEndian, ofLittleEndian, ih, List.length_cons]
    ring

/-! ## Numbers of a fixed length -/

theorem ofLittleEndian_lt (bytes : List UInt8) :
    ofLittleEndian bytes < Nat.pow 256 bytes.length := by
  have h := ofLittleEndian_littleEndian bytes.length (ofLittleEndian bytes)
  rw [littleEndian_ofLittleEndian] at h
  rw [h]
  exact Nat.mod_lt _ (Nat.pow_pos (by decide))

/-- Bytes of a fixed length and numbers that fit into them are the same thing. -/
theorem ofLittleEndian_eq_iff {k n : Nat} {bytes : List UInt8} :
    bytes.length = k ∧ ofLittleEndian bytes = n ↔ n < Nat.pow 256 k ∧ bytes = littleEndian k n := by
  constructor
  · rintro ⟨rfl, rfl⟩
    exact ⟨ofLittleEndian_lt bytes, (littleEndian_ofLittleEndian bytes).symm⟩
  · rintro ⟨hn, rfl⟩
    exact ⟨length_littleEndian k n, by rw [ofLittleEndian_littleEndian, Nat.mod_eq_of_lt hn]⟩

/-! ## Words -/

theorem ofLittleEndian_word (w : UInt32) : ofLittleEndian (littleEndian 4 w.toNat) = w.toNat := by
  rw [ofLittleEndian_littleEndian]
  exact Nat.mod_eq_of_lt w.toNat_lt

theorem ofLittleEndian_wide (w : UInt64) : ofLittleEndian (littleEndian 8 w.toNat) = w.toNat := by
  rw [ofLittleEndian_littleEndian]
  exact Nat.mod_eq_of_lt w.toNat_lt

theorem littleEndian_word_inj {v w : UInt32} :
    littleEndian 4 v.toNat = littleEndian 4 w.toNat ↔ v = w := by
  refine ⟨fun h => UInt32.toNat_inj.mp ?_, fun h => by rw [h]⟩
  rw [← ofLittleEndian_word v, h, ofLittleEndian_word]

theorem littleEndian_wide_inj {v w : UInt64} :
    littleEndian 8 v.toNat = littleEndian 8 w.toNat ↔ v = w := by
  refine ⟨fun h => UInt64.toNat_inj.mp ?_, fun h => by rw [h]⟩
  rw [← ofLittleEndian_wide v, h, ofLittleEndian_wide]

end TapeLife
