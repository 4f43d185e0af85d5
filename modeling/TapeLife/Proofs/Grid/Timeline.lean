import TapeLife.Proofs.Grid.History

/-!
# Proofs/Grid/Timeline — a soup at its later epochs

    g ──▸ … ──▸ g.atEpoch e ──▸ … ──▸ g.atEpoch e'

Under a fixed shuffle a soup has one future, so its later epochs are soups that can be named
(`Grid.atEpoch`).  Whoever goes on from one of them comes to the others (`advance_atEpoch`), and has
them as its own (`atEpoch_atEpoch`).
-/

namespace TapeLife

namespace Grid

variable {g : Grid} {e e' : UInt32}

/-- The soup when it has come to an epoch, which is not before its own. -/
def atEpoch (g : Grid) (e : UInt32) : Grid :=
  (g.advance (fun _ => 0) (e.toNat - g.epoch.toNat)).1

theorem params_atEpoch (g : Grid) (e : UInt32) : (g.atEpoch e).params = g.params :=
  params_advance _ _ g

theorem WellFormed.atEpoch (hg : g.WellFormed) (e : UInt32) : (g.atEpoch e).WellFormed :=
  hg.advance _ _

theorem atEpoch_self (g : Grid) : g.atEpoch g.epoch = g := by
  rw [atEpoch, Nat.sub_self, Grid.advance]

/-- **The soup at an epoch counts that epoch.** -/
theorem epoch_atEpoch (hle : g.epoch ≤ e) : (g.atEpoch e).epoch = e := by
  have hlt := e.toNat_lt
  have hle' := UInt32.le_iff_toNat_le.mp hle
  rw [← UInt32.toNat_inj, atEpoch, toNat_epoch_advance]
  omega

section FixedShuffle

variable (hfix : g.params.fixedShuffle = true)
include hfix

/-- **From one epoch to a later one**, with any entropy. -/
theorem advance_atEpoch (hle : g.epoch ≤ e) {n : Nat} (he : e.toNat + n = e'.toNat)
    (entropy : Nat → UInt64) : ((g.atEpoch e).advance entropy n).1 = g.atEpoch e' := by
  have hle' := UInt32.le_iff_toNat_le.mp hle
  have hfix' : (g.atEpoch e).params.fixedShuffle = true := by rw [params_atEpoch, hfix]
  have hsum : e'.toNat - g.epoch.toNat = e.toNat - g.epoch.toNat + n := by omega
  rw [advance_of_fixedShuffle hfix' entropy fun _ => 0, atEpoch, atEpoch, hsum, advance_add]

/-- From epoch zero it is as many epochs to an epoch as it says, in one batch. -/
theorem compute_eq_atEpoch (hg : g.epoch = 0) (entropy : Nat → UInt64) (e : UInt32) :
    (g.compute entropy e.toNat).1 = g.atEpoch e := by
  rw [compute_of_fixedShuffle hfix entropy fun _ => 0, atEpoch, hg]
  rfl

theorem atEpoch_atEpoch (hle : g.epoch ≤ e) (hle' : e ≤ e') :
    (g.atEpoch e).atEpoch e' = g.atEpoch e' := by
  have hnat := UInt32.le_iff_toNat_le.mp hle'
  rw [atEpoch, epoch_atEpoch hle]
  exact advance_atEpoch hfix hle (by omega) _

end FixedShuffle

end Grid

end TapeLife
