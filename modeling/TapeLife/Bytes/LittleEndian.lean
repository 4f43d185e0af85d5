/-!
# Bytes/LittleEndian — numbers as bytes, least significant byte first

`littleEndian k n` writes `n` as exactly `k` bytes and `ofLittleEndian` reads any number of bytes
back.  Reading what was written gives `n` modulo `256 ^ k` (`ofLittleEndian_littleEndian`).
-/

namespace TapeLife

/-- The lowest `k` bytes of `n`, least significant first. -/
def littleEndian : (k : Nat) → (n : Nat) → List UInt8
  | 0, _ => []
  | k + 1, n => UInt8.ofNat n :: littleEndian k (n / 256)

/-- The number whose bytes are given, least significant first. -/
def ofLittleEndian : List UInt8 → Nat
  | [] => 0
  | b :: bs => b.toNat + 256 * ofLittleEndian bs

@[simp] theorem length_littleEndian (k n : Nat) : (littleEndian k n).length = k := by
  induction k generalizing n with
  | zero => rfl
  | succ k ih => simp [littleEndian, ih]

/-- **Reading undoes writing**, up to the bytes that were not written. -/
theorem ofLittleEndian_littleEndian (k n : Nat) :
    ofLittleEndian (littleEndian k n) = n % Nat.pow 256 k := by
  induction k generalizing n with
  | zero => simp [littleEndian, ofLittleEndian, Nat.mod_one, Nat.pow]
  | succ k ih =>
    have hb : (UInt8.ofNat n).toNat = n % 256 := UInt8.toNat_ofNat'
    have hpow : Nat.pow 256 (k + 1) = 256 * Nat.pow 256 k := Nat.mul_comm ..
    rw [littleEndian, ofLittleEndian, ih, hb, hpow, Nat.mod_mul]

/-- **Writing undoes reading** at the length that was read. -/
theorem littleEndian_ofLittleEndian (bs : List UInt8) :
    littleEndian bs.length (ofLittleEndian bs) = bs := by
  induction bs with
  | nil => rfl
  | cons b bs ih =>
    have hb : b.toNat < 256 := b.toNat_lt
    have hdiv : (b.toNat + 256 * ofLittleEndian bs) / 256 = ofLittleEndian bs := by omega
    simp only [List.length_cons, littleEndian, ofLittleEndian, hdiv, ih, List.cons.injEq, and_true]
    apply UInt8.toNat_inj.mp
    simp

end TapeLife
