import TapeLife.Proofs.Pairing.Keys
import TapeLife.Proofs.Session.Failures

/-!
# Proofs/Session/Keys — the epochs of a run pair by different keys

    epoch e     e + 1     e + 2     …     2 ^ 32 - 1   2 ^ 32 - 1   …
    key   k₀    k₁        k₂              k            k            …

Every epoch is paired by a key (`Grid.keys`), and under a fixed shuffle the key goes by the epoch's
number.  So keys differ as long as the counter of epochs moves on (`Grid.nodup_keys_iff`), and a run
ends before the counter does.
-/

namespace TapeLife

namespace Grid

variable {g : Grid} {entropy : Nat → UInt64}

/-- The keys by which some epochs are paired, the first one first. -/
def keys (g : Grid) (entropy : Nat → UInt64) (n : ℕ) : List UInt64 :=
  (List.range n).map fun k => (g.advance entropy k).1.key (entropy k)

/-- **Some epochs are steps with their keys**, one after the other. -/
theorem fst_advance_eq_foldl_keys (g : Grid) (entropy : Nat → UInt64) (n : ℕ) :
    (g.advance entropy n).1 = (g.keys entropy n).foldl (fun soup key => (soup.stepWith key).1) g := by
  induction n with
  | zero => rfl
  | succ n ih =>
    have hkeys : g.keys entropy (n + 1)
        = g.keys entropy n ++ [(g.advance entropy n).1.key (entropy n)] := by
      rw [keys, List.range_succ, List.map_append]
      rfl
    rw [hkeys, List.foldl_append, ← ih, advance_add]
    rfl

section FixedShuffle

variable (hfix : g.params.fixedShuffle = true)
include hfix

/-- Later epochs are paired by the keys of their numbers. -/
theorem key_advance (k : ℕ) : (g.advance entropy k).1.key (entropy k)
    = shapeKey (g.advance entropy k).1.epoch g.params.width g.params.height := by
  have hparams := params_advance entropy k g
  have hfix' : (g.advance entropy k).1.params.fixedShuffle = true := by rw [hparams, hfix]
  rw [key_of_fixedShuffle hfix', hparams]

/-- Two epochs are paired by one key exactly if both have the largest number, or are the same. -/
theorem key_advance_eq_iff (k l : ℕ) :
    (g.advance entropy k).1.key (entropy k) = (g.advance entropy l).1.key (entropy l) ↔
      min (g.epoch.toNat + k) (2 ^ 32 - 1) = min (g.epoch.toNat + l) (2 ^ 32 - 1) := by
  rw [key_advance hfix, key_advance hfix, shapeKey_epoch_inj, ← UInt32.toNat_inj,
    toNat_epoch_advance, toNat_epoch_advance]

/-- **Keys differ exactly as long as the counter of epochs moves on.** -/
theorem nodup_keys_iff (n : ℕ) :
    (g.keys entropy n).Nodup ↔ g.epoch.toNat + n ≤ 2 ^ 32 := by
  have hepoch := g.epoch.toNat_lt
  rw [keys, List.nodup_map_iff_inj_on List.nodup_range]
  simp only [key_advance_eq_iff hfix, List.mem_range]
  constructor
  · intro hinj
    by_contra hmany
    -- the epoch at which the counter comes to its end, and the one after it
    have hlast := hinj (2 ^ 32 - 1 - g.epoch.toNat) (by omega) (2 ^ 32 - g.epoch.toNat)
    omega
  · intro hfew k hk l hl hkl
    omega

end FixedShuffle

end Grid

namespace Session

/-- **No key of pairing and no draw for a partner comes twice.**  A fixed key can be told from the
keys of all other epochs on the same grid, and from the keys of the same epoch on all other grids.
So the keys of some epochs of a soup differ as long as the counter of epochs moves on, and those of
a run do in any case: it steps through the epochs of the soup that it starts with, each with its own
key, and it ends before the counter does.  Under a key the words that are scrambled to choose
partners differ for all attempts of all cells of a grid that a soup may have, and so do the draws
that they are scrambled to; and an attempt has different words under different keys. -/
theorem pairing_never_repeats :
    (∀ (epoch epoch' width height : UInt32) (x x' : UInt64),
      epochKey true epoch width height x = epochKey true epoch' width height x' ↔
        epoch = epoch') ∧
    (∀ (epoch width height width' height' : UInt32) (x x' : UInt64),
      epochKey true epoch width height x = epochKey true epoch width' height' x' ↔
        width = width' ∧ height = height') ∧
    (∀ (g : Grid) (entropy : Nat → UInt64) (n : Nat), g.params.fixedShuffle = true →
      ((g.keys entropy n).Nodup ↔ g.epoch.toNat + n ≤ 2 ^ 32)) ∧
    (∀ (settings : Settings) (warnings : List Warning) (entropy : Nat → UInt64) (tree : FileTree)
        (medium : Medium), settings.check = .ok warnings →
      let outcome := run settings entropy tree medium
      outcome.2.2.2 = none → ∃ g, (settings.startGrid tree).2 = .ok g ∧
        let n := settings.run.epochs.toNat - g.epoch.toNat
        outcome.2.1.filterMap Event.done? = (g.advance entropy n).2 ∧
        (g.advance entropy n).1
          = (g.keys entropy n).foldl (fun soup key => (soup.stepWith key).1) g ∧
        (g.params.fixedShuffle = true → (g.keys entropy n).Nodup)) ∧
    ∀ (p : Params) (key key' : UInt64), p.Valid → ∀ i < p.cellCount, ∀ j < p.cellCount,
      ∀ a < attemptsPerCell, ∀ b < attemptsPerCell,
        (partnerWord key i a = partnerWord key j b ↔ i = j ∧ a = b) ∧
        (mix64 (partnerWord key i a) = mix64 (partnerWord key j b) ↔ i = j ∧ a = b) ∧
        (partnerWord key i a = partnerWord key' i a ↔ key = key') := by
  refine ⟨fun _ _ _ _ _ _ => shapeKey_epoch_inj, fun _ _ _ _ _ _ _ => shapeKey_shape_inj,
    fun g entropy n hfix => Grid.nodup_keys_iff hfix n, ?_, ?_⟩
  · intro settings warnings entropy tree medium hcheck outcome hnone
    obtain ⟨-, hspeed, -⟩ := Settings.check_succeeds_iff.mp ⟨warnings, hcheck⟩
    obtain ⟨cause, -, events, hstart⟩ | ⟨g, hgrid, ⟨cause, -, files, events, hstart⟩ |
      ⟨log, first, files, events, -, hstart, rfl, hfirst⟩⟩ := start_cases settings tree
    · simp [outcome, run, hstart] at hnone
    · simp [outcome, run, hstart] at hnone
    · obtain ⟨-, hdone⟩ := run_of_start hspeed hstart hfirst entropy medium
      have hepoch := first.grid.epoch.toNat_lt
      have hepochs := settings.run.epochs.toNat_lt
      exact ⟨first.grid, hgrid, hdone, Grid.fst_advance_eq_foldl_keys _ _ _,
        fun hfix => (Grid.nodup_keys_iff hfix _).mpr (by omega)⟩
  · intro p key key' hp i hi j hj a ha b hb
    have hcells : p.cellCount < 2 ^ 62 := Nat.lt_of_le_of_lt hp.cellCount_le (by decide)
    have hwords := partnerWord_inj key (hi.trans hcells) (hj.trans hcells) ha hb
    exact ⟨hwords, by rw [mix64_bijective.injective.eq_iff, hwords], partnerWord_key_inj⟩

/-- Three epochs of two cells are paired by three keys; a soup whose counter has come to its end
pairs two epochs by one. -/
theorem pairing_never_repeats_diary :
    let entropy := fun _ => (0 : UInt64)
    let soup := Grid.grow diary.world .random
    (diary.check = .ok [.windowSpansGrid 30 2 1] ∧ (run diary entropy .empty).2.2.2 = none ∧
      (diary.startGrid .empty).2 = .ok soup ∧ soup.params.fixedShuffle = true ∧
      diary.world.Valid) ∧
      (soup.keys entropy 3).Nodup ∧
      (Grid.square.params.fixedShuffle = true ∧ ¬ (Grid.square.keys entropy 2).Nodup) ∧
      epochKey true 0 2 1 3 ≠ epochKey true 1 2 1 4 ∧ epochKey true 0 2 1 3 ≠ epochKey true 0 1 2 4 ∧
      partnerWord 7 0 3 ≠ partnerWord 7 1 0 ∧
      mix64 (partnerWord 7 0 3) ≠ mix64 (partnerWord 7 1 0) ∧
      partnerWord 7 1 2 ≠ partnerWord 8 1 2 := by
  intro entropy soup
  obtain ⟨hepoch, hshape, hsoups, hrun, hwords⟩ := pairing_never_repeats
  have hcheck : diary.check = .ok [.windowSpansGrid 30 2 1] := by decide +kernel
  have hnone : (run diary entropy .empty).2.2.2 = none := rfl
  have hsoup : (diary.startGrid .empty).2 = .ok soup := rfl
  have hvalid : diary.world.Valid := (Params.fault?_eq_none_iff _).mp (by decide)
  obtain ⟨g, hg, -, -, hkeys⟩ := hrun diary _ entropy .empty .roomy hcheck hnone
  obtain rfl : soup = g := Except.ok.inj (hsoup.symm.trans hg)
  obtain ⟨hword, hdraw, -⟩ := hwords diary.world 7 7 hvalid 0 (by decide) 1 (by decide) 3 (by decide)
    0 (by decide)
  obtain ⟨-, -, hkey⟩ := hwords diary.world 7 8 hvalid 1 (by decide) 1 (by decide) 2 (by decide)
    2 (by decide)
  refine ⟨⟨hcheck, hnone, hsoup, rfl, hvalid⟩, hkeys rfl, ⟨rfl, ?_⟩, ?_, ?_, ?_, ?_, ?_⟩
  · rw [hsoups Grid.square entropy 2 rfl]
    decide
  · rw [Ne, hepoch]
    decide
  · rw [Ne, hshape]
    decide
  · rw [Ne, hword]
    decide
  · rw [Ne, hdraw]
    decide
  · rw [Ne, hkey]
    decide

end Session

end TapeLife
