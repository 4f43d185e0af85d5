import TapeLife.Proofs.Session.Planting
import TapeLife.Proofs.Session.Run

/-!
# Proofs/Session/Start — the soup that a run begins with

Settings that pass the check grow a soup and can plant all their seeds on it (`exists_freshGrid`).
A run begins with that soup if there is nothing to resume (`startGrid_fresh`), and with a saved soup
if one is found (`startGrid_resumed`); parameters, seeds and tapes of the settings do not matter
then.
-/

namespace TapeLife

namespace Settings

variable {s : Settings} {g : Grid} {tree : FileTree}

/-! ## A fresh start -/

/-- **Settings that pass the check grow a soup.** -/
theorem exists_freshGrid (hvalid : s.world.Valid)
    (hseeds : ∀ seed ∈ s.seeds, CanPlant s.world seed) :
    ∃ g : Grid, s.freshGrid (Grid.grow s.world .zero) = .ok g ∧ g.WellFormed ∧
      g.params = s.world ∧ g.epoch = 0 :=
  exists_foldlM_plant (Grid.wellFormed_grow hvalid s.run.init) hseeds

theorem startGrid_fresh (hvalid : s.world.Valid) (hresume : s.checkpoint.resumeFrom = "") :
    (s.startGrid tree).2 = s.freshGrid (Grid.grow s.world .zero) := by
  have hpath : s.resumePath? tree = none := if_pos hresume
  rw [startGrid, Grid.create_eq_ok.mpr ⟨hvalid, rfl⟩]
  simp only [hpath]

/-! ## Going on -/

/-- **A saved soup that is found takes the place of the settings' own.** -/
theorem startGrid_resumed (hvalid : s.world.Valid) {path : Path}
    (hpath : s.resumePath? tree = some path) (hg : g.WellFormed)
    (hread : tree.read path = .ok g.save) : (s.startGrid tree).2 = .ok g := by
  have hload : (Grid.grow s.world .zero).loadFrom tree path = (g, none) := by
    rw [Grid.loadFrom, hread]
    exact Grid.load_save hg _
  rw [startGrid, Grid.create_eq_ok.mpr ⟨hvalid, rfl⟩]
  simp only [hpath, hload]

theorem resumePath?_latest (hresume : s.checkpoint.resumeFrom = latestWord) :
    s.resumePath? tree = tree.latestCheckpoint? s.checkpoint.path := by
  rw [resumePath?, hresume, if_neg (by decide), if_pos rfl]

end Settings

namespace Session

variable {settings : Settings} {g : Grid} {tree : FileTree}

/-- **A run begins with its soup**, and the files are as they were. -/
theorem exists_start (hmetrics : settings.metrics.enabled = false)
    (hcheckpoints : settings.checkpoint.enabled = true) (h : (settings.startGrid tree).2 = .ok g) :
    ∃ events s, start settings tree = (tree, events, .ok s) ∧ IsFresh g tree s := by
  rcases hstart : settings.startGrid tree with ⟨events, outcome⟩
  rw [hstart] at h
  obtain rfl : outcome = .ok g := h
  have htable : tablePath? settings = none := by rw [tablePath?, hmetrics]; rfl
  refine ⟨events ++ opening settings g,
    { grid := g, tree := tree, log := .nowhere, queue := some .fresh, totals := {}
      events := events ++ opening settings g }, ?_, rfl, rfl, rfl, rfl⟩
  simp only [start, hstart, htable, StatsLog.openAt, hcheckpoints, if_pos]

/-- **A run without censuses that begins with a soup does not fail.**  It leaves behind what writing
its snapshots in order leaves behind: soups of epochs between the first and the last one, the last
one at the end. -/
theorem exists_run (hmetrics : settings.metrics.enabled = false)
    (hcheckpoints : settings.checkpoint.enabled = true) (hspeed : settings.run.speed ≠ 0)
    (h : (settings.startGrid tree).2 = .ok g) (hfix : g.params.fixedShuffle = true)
    (hle : g.epoch ≤ settings.run.epochs) (entropy : Nat → UInt64) :
    (run settings entropy tree).2.2.2 = none ∧
      ∃ sent : List UInt32, (∀ e ∈ sent, g.epoch ≤ e ∧ e ≤ settings.run.epochs) ∧
        (run settings entropy tree).1 = (writeInPlace tree
          (g.snapshotsAt settings.checkpoint.path (sent ++ [settings.run.epochs]))).1 := by
  obtain ⟨events, s, hstart, hs⟩ := exists_start hmetrics hcheckpoints h
  have htree := exists_tree_complete hmetrics hspeed hfix hle hs entropy
  rw [run, hstart]
  exact ⟨rfl, htree⟩

end Session

end TapeLife
