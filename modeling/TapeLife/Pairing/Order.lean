import TapeLife.Random.Mix

/-!
# Pairing/Order — a keyed shuffle

`shuffle key` settles the places of a vector from the last to the first, each time exchanging the
place with one not yet settled.  Every exchange permutes, so the result is a permutation of what was
given (`shuffle_perm`).
-/

namespace TapeLife

variable {α : Type} {n : Nat}

/-- The place that the exchange at `place` takes from, somewhere from the first up to `place`. -/
def exchangePlace (key : UInt64) (place : Nat) : Nat :=
  (mix64 (key ^^^ mix64 (UInt64.ofNat place))).toNat % (place + 1)

theorem exchangePlace_le (key : UInt64) (place : Nat) : exchangePlace key place ≤ place :=
  Nat.le_of_lt_succ (Nat.mod_lt _ (Nat.succ_pos place))

/-- Settles the first `count` places, from the last of them down. -/
def shuffleFirst (key : UInt64) : (count : Nat) → count ≤ n → Vector α n → Vector α n
  | 0, _, v => v
  | place + 1, h, v =>
    have hj : exchangePlace key place < n := Nat.lt_of_le_of_lt (exchangePlace_le key place) h
    shuffleFirst key place (Nat.le_of_succ_le h) (v.swap place (exchangePlace key place) h hj)

/-- The vector in an order drawn from a key. -/
def shuffle (key : UInt64) (v : Vector α n) : Vector α n := shuffleFirst key n (Nat.le_refl n) v

/-- The numbers below `n` in an order drawn from a key. -/
def keyedOrder (n : Nat) (key : UInt64) : List Nat := (shuffle key (Vector.range n)).toList

theorem shuffleFirst_perm (key : UInt64) (count : Nat) (h : count ≤ n) (v : Vector α n) :
    (shuffleFirst key count h v).Perm v := by
  induction count generalizing v with
  | zero => exact Vector.Perm.refl v
  | succ place ih => exact (ih _ _).trans (Vector.swap_perm _ _)

/-- **A shuffle loses nothing and repeats nothing.** -/
theorem shuffle_perm (key : UInt64) (v : Vector α n) : (shuffle key v).Perm v :=
  shuffleFirst_perm key n (Nat.le_refl n) v

end TapeLife
