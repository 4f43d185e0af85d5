import Mathlib.Algebra.Order.BigOperators.Group.Finset
import Mathlib.Data.FinEnum
import Mathlib.Data.LawfulXor.Basic
import Mathlib.NumberTheory.Multiplicity
import Mathlib.Tactic.Ring
import TapeLife.Random.Stream

/-!
# Proofs/Random/Cycle — every stream goes through all states, and draws every word equally often

    x ──▸ x + u ──▸ x + (1 + a) u ──▸ x + (1 + a + a²) u ──▸ …      u odd, a = 1 modulo 4

A step moves a state by its *stride*, which is odd, and multiplies the stride by `a`
(`toNat_state_advance`).  As many factors of two as the number of powers has, their sum has too
(`two_pow_dvd_geom_sum_iff`), so a stream comes back after `2 ^ 64` draws and not before
(`advance_eq_advance_iff`).

Of the 64 bits of a state a word shows 32, and it can be undone once the other 32 are known
(`eq_of_output_eq`).  So no word is drawn at more than `2 ^ 32` states, and as all states are gone
through, none is drawn at fewer (`full_cycle`).
-/

namespace TapeLife

/-! ## Sums of powers -/

/-- **A sum of powers has as many factors of two as the number of its terms**, if the base is one
more than a multiple of four. -/
theorem two_pow_dvd_geom_sum_iff {m : ℕ} (hm : 4 ∣ m) (hm0 : m ≠ 0) (k n : ℕ) :
    2 ^ k ∣ ∑ i ∈ Finset.range n, (m + 1) ^ i ↔ 2 ^ k ∣ n := by
  have hodd : ¬ (2 : ℤ) ∣ (m : ℤ) + 1 := by omega
  have hfour : (4 : ℤ) ∣ (m : ℤ) + 1 - 1 := by omega
  have hfinite : FiniteMultiplicity (2 : ℤ) m :=
    Int.finiteMultiplicity_iff.mpr ⟨by decide, by exact_mod_cast hm0⟩
  have hlift := Int.two_pow_sub_pow' n hfour hodd
  have hsum : (∑ i ∈ Finset.range n, ((m : ℤ) + 1) ^ i) * m = ((m : ℤ) + 1) ^ n - 1 ^ n := by
    rw [one_pow, ← geom_sum_mul_add (m : ℤ) n, add_sub_cancel_right]
  rw [← hsum, emultiplicity_mul Int.prime_two, add_sub_cancel_right, add_comm] at hlift
  have hsame := (WithTop.add_left_inj
    (finiteMultiplicity_iff_emultiplicity_ne_top.mp hfinite)).mp hlift
  rw [← Int.natCast_dvd_natCast, ← Int.natCast_dvd_natCast]
  push_cast
  rw [pow_dvd_iff_le_emultiplicity, pow_dvd_iff_le_emultiplicity, hsame]

namespace Stream

/-! ## The period -/

/-- How far a step moves a state, before it wraps. -/
def stride (x : ℕ) : ℕ := 6364136223846793004 * x + 1442695040888963407

theorem toNat_state_step (s : Stream) :
    s.step.state.toNat ≡ s.state.toNat + stride s.state.toNat [MOD 2 ^ 64] := by
  have hstep : s.step.state.toNat
      = (1442695040888963407 + 6364136223846793005 * s.state.toNat % 2 ^ 64) % 2 ^ 64 := by
    simp only [step, UInt64.toNat_add, UInt64.toNat_mul, UInt64.reduceToNat]
  rw [hstep, stride, Nat.ModEq]
  omega

/-- **After some steps a state has moved by a sum of powers, times its first stride.** -/
theorem toNat_state_advance (n : ℕ) (s : Stream) :
    (advance n s).state.toNat ≡ s.state.toNat
      + (∑ i ∈ Finset.range n, (6364136223846793004 + 1) ^ i) * stride s.state.toNat
        [MOD 2 ^ 64] := by
  induction n generalizing s with
  | zero => simp [advance, Nat.ModEq.refl]
  | succ n ih =>
    generalize hS : ∑ i ∈ Finset.range n, (6364136223846793004 + 1) ^ i = S at ih
    have hmoved : s.step.state.toNat + S * stride s.step.state.toNat
        ≡ (s.state.toNat + stride s.state.toNat)
          + S * stride (s.state.toNat + stride s.state.toNat) [MOD 2 ^ 64] := by
      have h := toNat_state_step s
      exact h.add ((((h.mul_left _).add_right _)).mul_left S)
    refine ((ih s.step).trans hmoved).trans ?_
    rw [geom_sum_succ, hS]
    -- The stride of the moved state is the old one times the multiplier.
    have hstride : stride (s.state.toNat + stride s.state.toNat)
        = (6364136223846793004 + 1) * stride s.state.toNat := by
      simp only [stride]
      ring
    rw [hstride]
    exact congrArg (· % 2 ^ 64) (by ring)

theorem advance_eq_self_iff (n : ℕ) (s : Stream) : advance n s = s ↔ 2 ^ 64 ∣ n := by
  have hodd : Nat.Coprime (2 ^ 64) (stride s.state.toNat) := by
    refine Nat.Coprime.pow_left 64 (Nat.coprime_two_left.mpr ?_)
    rw [Nat.odd_iff, stride]
    omega
  have hstate : advance n s = s ↔ (advance n s).state.toNat ≡ s.state.toNat [MOD 2 ^ 64] := by
    rw [Nat.ModEq, Nat.mod_eq_of_lt (UInt64.toNat_lt _), Nat.mod_eq_of_lt (UInt64.toNat_lt _),
      UInt64.toNat_inj]
    exact ⟨congrArg state, fun h => congrArg Stream.mk h⟩
  have hmoved := toNat_state_advance n s
  rw [hstate, ← two_pow_dvd_geom_sum_iff (m := 6364136223846793004) (by decide) (by decide),
    ← hodd.dvd_mul_right, ← Nat.modEq_zero_iff_dvd]
  refine ⟨fun h => ?_, fun h => ?_⟩
  · exact Nat.ModEq.add_left_cancel' _ (hmoved.symm.trans h)
  · exact hmoved.trans (h.add_left _)

/-- **A stream is at the same state after two numbers of draws exactly if they agree modulo
`2 ^ 64`.** -/
theorem advance_eq_advance_iff (i j : ℕ) (s : Stream) :
    advance i s = advance j s ↔ i ≡ j [MOD 2 ^ 64] := by
  wlog hij : i ≤ j generalizing i j
  · rw [eq_comm, this j i (Nat.le_of_not_le hij)]
    exact Nat.ModEq.comm
  obtain ⟨d, rfl⟩ := Nat.exists_eq_add_of_le hij
  rw [advance_add, eq_comm, advance_eq_self_iff, Nat.modEq_iff_dvd' hij, Nat.add_sub_cancel_left]

/-- Below the period different numbers of draws lead to different states. -/
theorem eq_of_advance_eq {i j : ℕ} {s : Stream} (hi : i < 2 ^ 64) (hj : j < 2 ^ 64)
    (h : advance i s = advance j s) : i = j := by
  have hmod := (advance_eq_advance_iff i j s).mp h
  rwa [Nat.ModEq, Nat.mod_eq_of_lt hi, Nat.mod_eq_of_lt hj] at hmod

/-! ## What a word shows of a state -/

/-- A number can be told from what it becomes when its high bits are folded into the low ones. -/
theorem eq_of_shiftRight_xor_eq {k x y : ℕ} (hk : 0 < k)
    (h : x >>> k ^^^ x = y >>> k ^^^ y) : x = y := by
  have hshift : (x ^^^ y) >>> k = x ^^^ y := by
    rw [Nat.shiftRight_xor_distrib, ← xor_eq_zero_iff]
    calc x >>> k ^^^ y >>> k ^^^ (x ^^^ y) = (x >>> k ^^^ x) ^^^ (y >>> k ^^^ y) := by ac_rfl
      _ = 0 := xor_eq_zero_iff.mpr h
  rw [Nat.shiftRight_eq_div_pow] at hshift
  refine xor_eq_zero_iff.mp (Nat.eq_zero_of_not_pos fun hpos => ?_)
  exact absurd hshift (Nat.div_lt_self hpos (Nat.one_lt_two_pow hk.ne')).ne

/-- Bits that leave a number on one side and come back on the other: its lower and its upper part
are exchanged. -/
theorem or_shifts_eq {k m x : ℕ} (hx : x < 2 ^ (k + m)) :
    x >>> k ||| x <<< m % 2 ^ (k + m) = 2 ^ m * (x % 2 ^ k) + x / 2 ^ k := by
  have hupper : x / 2 ^ k < 2 ^ m := Nat.div_lt_of_lt_mul (by rwa [← pow_add])
  rw [Nat.shiftRight_eq_div_pow, Nat.shiftLeft_eq, mul_comm x, add_comm k, pow_add,
    Nat.mul_mod_mul_left, Nat.or_comm, Nat.two_pow_add_eq_or_of_lt hupper]

/-- **Numbers are equal if they are after their parts were exchanged.** -/
theorem eq_of_exchanged_eq {k m x y : ℕ} (hx : x < 2 ^ (k + m)) (hy : y < 2 ^ (k + m))
    (h : 2 ^ m * (x % 2 ^ k) + x / 2 ^ k = 2 ^ m * (y % 2 ^ k) + y / 2 ^ k) : x = y := by
  have hupper : ∀ z < 2 ^ (k + m), z / 2 ^ k < 2 ^ m := fun z hz =>
    Nat.div_lt_of_lt_mul (by rwa [← pow_add])
  have hhigh : x % 2 ^ k = y % 2 ^ k := by
    have hdiv := congrArg (· / 2 ^ m) h
    simpa only [Nat.mul_add_div (Nat.two_pow_pos _), Nat.div_eq_of_lt (hupper x hx),
      Nat.div_eq_of_lt (hupper y hy), add_zero] using hdiv
  have hrest : x / 2 ^ k = y / 2 ^ k := by
    have hmod := congrArg (· % 2 ^ m) h
    simpa only [Nat.mul_add_mod, Nat.mod_eq_of_lt (hupper x hx),
      Nat.mod_eq_of_lt (hupper y hy)] using hmod
  rw [← Nat.div_add_mod x, hrest, hhigh, Nat.div_add_mod]

/-- Turning a half word exchanges its lower and its upper part. -/
theorem toNat_turnRight (w c : UInt32) (hc : c.toNat < 32) :
    (turnRight w c).toNat
      = 2 ^ (32 - c.toNat) * (w.toNat % 2 ^ c.toNat) + w.toNat / 2 ^ c.toNat := by
  have hback : (32 - c).toNat = 32 - c.toNat :=
    UInt32.toNat_sub_of_le _ _ (UInt32.le_iff_toNat_le.mpr hc.le)
  rw [turnRight, UInt32.toNat_or, UInt32.toNat_shiftRight, UInt32.toNat_shiftLeft, hback,
    Nat.mod_eq_of_lt hc]
  rcases Nat.eq_zero_or_pos c.toNat with hzero | hpos
  · simp [hzero, Nat.mod_one]
  · have hsum : 2 ^ 32 = 2 ^ (c.toNat + (32 - c.toNat)) := by rw [Nat.add_sub_cancel' hc.le]
    rw [Nat.mod_eq_of_lt (by omega : 32 - c.toNat < 32), hsum]
    exact or_shifts_eq (hsum ▸ w.toNat_lt)

/-- Half words that are equal after the same turn were equal before. -/
theorem eq_of_turnRight_eq {v w c : UInt32} (hc : c.toNat < 32)
    (h : turnRight v c = turnRight w c) : v = w := by
  have hsum : 2 ^ 32 = 2 ^ (c.toNat + (32 - c.toNat)) := by rw [Nat.add_sub_cancel' hc.le]
  have hnat := congrArg UInt32.toNat h
  rw [toNat_turnRight v c hc, toNat_turnRight w c hc] at hnat
  exact UInt32.toNat_inj.mp (eq_of_exchanged_eq (hsum ▸ v.toNat_lt) (hsum ▸ w.toNat_lt) hnat)

/-- A state with its high bits folded into the low ones. -/
def folded (s : Stream) : ℕ := s.state.toNat >>> 18 ^^^ s.state.toNat

/-- What a word does not show: how far it was turned, and the lowest bits of the folded state. -/
def hidden (s : Stream) : ℕ := s.state.toNat / 2 ^ 59 * 2 ^ 27 + s.folded % 2 ^ 27

theorem hidden_lt (s : Stream) : s.hidden < 2 ^ 32 := by
  have := s.state.toNat_lt
  rw [hidden]
  omega

/-- Folding leaves the highest bits alone. -/
theorem folded_div (s : Stream) : s.folded / 2 ^ 59 = s.state.toNat / 2 ^ 59 := by
  have hnothing : s.state.toNat >>> 18 >>> 59 = 0 := by
    rw [← Nat.shiftRight_add, Nat.shiftRight_eq_div_pow]
    exact Nat.div_eq_of_lt (s.state.toNat_lt.trans (by decide))
  rw [← Nat.shiftRight_eq_div_pow, folded, Nat.shiftRight_xor_distrib, hnothing, Nat.zero_xor,
    Nat.shiftRight_eq_div_pow]

/-- How far the half word of a state is turned. -/
theorem toNat_turn (s : Stream) : (s.state >>> 59).toUInt32.toNat = s.state.toNat / 2 ^ 59 := by
  have hlt := s.state.toNat_lt
  simp only [UInt64.toNat_toUInt32, UInt64.toNat_shiftRight, UInt64.reduceToNat, Nat.reduceMod,
    Nat.shiftRight_eq_div_pow]
  omega

/-- The half word of a state, before it is turned. -/
theorem toNat_unturned (s : Stream) :
    (((s.state >>> 18) ^^^ s.state) >>> 27).toUInt32.toNat = s.folded / 2 ^ 27 % 2 ^ 32 := by
  simp only [UInt64.toNat_toUInt32, UInt64.toNat_shiftRight, UInt64.toNat_xor, UInt64.reduceToNat,
    Nat.reduceMod, folded, Nat.shiftRight_eq_div_pow _ 27]

/-- **A state can be told from its word and what the word hides.** -/
theorem eq_of_output_eq {s t : Stream} (hword : s.output = t.output) (hrest : s.hidden = t.hidden) :
    s = t := by
  have hs := s.state.toNat_lt
  have ht := t.state.toNat_lt
  have hturn : s.state.toNat / 2 ^ 59 = t.state.toNat / 2 ^ 59 := by
    simp only [hidden] at hrest
    omega
  have hunturned : s.folded / 2 ^ 27 % 2 ^ 32 = t.folded / 2 ^ 27 % 2 ^ 32 := by
    have hsame : (s.state >>> 59).toUInt32 = (t.state >>> 59).toUInt32 := by
      rw [← UInt32.toNat_inj, toNat_turn, toNat_turn, hturn]
    rw [output, output, hsame] at hword
    rw [← toNat_unturned, ← toNat_unturned, eq_of_turnRight_eq (by rw [toNat_turn]; omega) hword]
  have hfolded : s.folded = t.folded := by
    have hdivs := folded_div s
    have hdivt := folded_div t
    simp only [hidden] at hrest
    omega
  have hstate : s.state = t.state :=
    UInt64.toNat_inj.mp (eq_of_shiftRight_xor_eq (by decide) hfolded)
  exact congrArg Stream.mk hstate

/-- **Every word is drawn at some state**: one whose highest bits are clear shows its other bits as
they are, once it is folded. -/
theorem output_surjective : Function.Surjective output := by
  intro w
  let unfolded : ℕ := w.toNat ^^^ w.toNat >>> 18
  have hw : w.toNat < 2 ^ 32 := w.toNat_lt
  have hunfolded : unfolded < 2 ^ 32 :=
    Nat.xor_lt_two_pow hw ((Nat.shiftRight_le _ _).trans_lt hw)
  let s : Stream := ⟨UInt64.ofNat (unfolded <<< 27)⟩
  have hshifted : unfolded <<< 27 < 2 ^ 59 := by
    rw [Nat.shiftLeft_eq]
    omega
  have hstate : s.state.toNat = unfolded <<< 27 :=
    UInt64.toNat_ofNat_of_lt' (hshifted.trans (by decide))
  have hturn : (s.state >>> 59).toUInt32.toNat = 0 := by
    rw [toNat_turn, hstate, Nat.div_eq_of_lt hshifted]
  have hfolded : s.folded / 2 ^ 27 = w.toNat := by
    have hgone : w.toNat >>> 18 >>> 18 = 0 := by
      rw [← Nat.shiftRight_add, Nat.shiftRight_eq_div_pow]
      exact Nat.div_eq_of_lt (hw.trans (by decide))
    calc s.folded / 2 ^ 27 = (unfolded <<< 27) >>> 18 >>> 27 ^^^ (unfolded <<< 27) >>> 27 := by
          rw [folded, hstate, ← Nat.shiftRight_eq_div_pow, Nat.shiftRight_xor_distrib]
      _ = unfolded >>> 18 ^^^ unfolded := by
          rw [← Nat.shiftRight_add, Nat.add_comm 18 27, Nat.shiftRight_add,
            Nat.shiftLeft_shiftRight]
      _ = w.toNat >>> 18 ^^^ w.toNat >>> 18 >>> 18 ^^^ (w.toNat ^^^ w.toNat >>> 18) := by
          rw [Nat.shiftRight_xor_distrib]
      _ = w.toNat := by
          rw [hgone, Nat.xor_zero, Nat.xor_comm w.toNat, ← Nat.xor_assoc, Nat.xor_self,
            Nat.zero_xor]
  refine ⟨s, UInt32.toNat_inj.mp ?_⟩
  rw [output, toNat_turnRight _ _ (by omega), hturn, toNat_unturned, hfolded]
  simp [Nat.mod_one]

/-! ## The words of a whole cycle -/

theorem words_eq_map (n : ℕ) (s : Stream) :
    words n s = (List.range n).map fun i => (advance i s).output := by
  induction n generalizing s with
  | zero => rfl
  | succ n ih => rw [words, ih, List.range_succ_eq_map, List.map_cons, List.map_map]; rfl

theorem count_words (n : ℕ) (s : Stream) (w : UInt32) :
    (words n s).count w = ((Finset.range n).filter fun i => (advance i s).output = w).card := by
  rw [words_eq_map, List.count, List.countP_map, List.countP_eq_length_filter]
  rfl

/-- If no part is larger than `m`, and all together are as large as if each had size `m`, then each
has size `m`. -/
theorem card_filter_eq_of_card_le {ι κ : Type} [DecidableEq κ] {all : Finset ι} {labels : Finset κ}
    {label : ι → κ} {m : ℕ} (hlabel : ∀ i ∈ all, label i ∈ labels)
    (hle : ∀ k ∈ labels, (all.filter fun i => label i = k).card ≤ m)
    (hcard : all.card = labels.card * m) {k : κ} (hk : k ∈ labels) :
    (all.filter fun i => label i = k).card = m := by
  refine (Finset.sum_eq_sum_iff_of_le hle).mp ?_ k hk
  rw [← Finset.card_eq_sum_card_fiberwise hlabel, hcard, Finset.sum_const, smul_eq_mul]

/-- Within a period no word is drawn more often than something can be hidden behind it. -/
theorem card_filter_output_le (s : Stream) (w : UInt32) :
    ((Finset.range (2 ^ 64)).filter fun i => (advance i s).output = w).card ≤ 2 ^ 32 := by
  rw [← Finset.card_range (2 ^ 32)]
  refine Finset.card_le_card_of_injOn (fun i => (advance i s).hidden)
    (fun i _ => Finset.mem_coe.mpr (Finset.mem_range.mpr (hidden_lt _))) ?_
  intro i hi j hj hhidden
  obtain ⟨hi, hiw⟩ := Finset.mem_filter.mp hi
  obtain ⟨hj, hjw⟩ := Finset.mem_filter.mp hj
  exact eq_of_advance_eq (Finset.mem_range.mp hi) (Finset.mem_range.mp hj)
    (eq_of_output_eq (hiw.trans hjw.symm) hhidden)

/-- **A stream has the full period, and draws every word equally often.**  From any state the next
`2 ^ 64` states are all different and the one after them is the first again; and among the `2 ^ 64`
words that are drawn on the way every word occurs `2 ^ 32` times. -/
theorem full_cycle (s : Stream) :
    ((List.range (2 ^ 64)).map fun n => advance n s).Nodup ∧ advance (2 ^ 64) s = s ∧
      ∀ w : UInt32, (words (2 ^ 64) s).count w = 2 ^ 32 := by
  refine ⟨?_, (advance_eq_self_iff _ s).mpr (dvd_refl _), fun w => ?_⟩
  · refine List.Nodup.map_on (fun i hi j hj => ?_) List.nodup_range
    exact eq_of_advance_eq (List.mem_range.mp hi) (List.mem_range.mp hj)
  · rw [count_words]
    refine card_filter_eq_of_card_le (fun i _ => Finset.mem_univ _)
      (fun w _ => card_filter_output_le s w) ?_ (Finset.mem_univ w)
    rw [Finset.card_range, Finset.card_univ, ← FinEnum.card_eq_fintypeCard, FinEnum.card_UInt32,
      ← pow_add]

end Stream

end TapeLife
