import TapeLife.Proofs.Session.Start

/-!
# Proofs/Session/Resume — an interrupted run that is resumed is a run

    epoch 0 ──first run──▸ a ──save──▸ directory ──load──▸ a ──second run──▸ b
    epoch 0 ────────────────────────one run──────────────────────────────▸ b

A run into a directory of checkpoints leaves the soup of its last epoch there, and nothing later
(`HoldsRun`, `holdsRun_run`).  That is the latest checkpoint, so the next run goes on from it, and
under a fixed shuffle it comes to the soup that a run without an interruption comes to
(`HoldsRun.resume`).  How fast each of the runs goes and how often it looks or saves has no
influence (`read_resumed_eq`).
-/

namespace TapeLife

/-- How fast a run goes, and how often it reports and saves. -/
structure Pace where
  speed : UInt32
  reportInterval : UInt32
  checkpointInterval : UInt32

namespace Settings

/-- The settings for a run to an epoch at a pace. -/
def upTo (s : Settings) (epochs : UInt32) (pace : Pace) : Settings :=
  { s with
    run := { s.run with epochs, speed := pace.speed, reportInterval := pace.reportInterval }
    checkpoint := { s.checkpoint with interval := pace.checkpointInterval } }

/-- The settings for a run that goes on from the latest checkpoint. -/
def resumingLatest (s : Settings) : Settings :=
  { s with checkpoint := { s.checkpoint with resumeFrom := latestWord } }

/-- The settings for a run with its checkpoints in a directory. -/
def into (s : Settings) (directory : Path) : Settings :=
  { s with checkpoint := { s.checkpoint with path := directory } }

end Settings

namespace Session

variable {settings : Settings} {g : Grid} {tree made : FileTree} {base : Location} {shelf : Shelf}

/-- The files after a run of a soup: in the directory are checkpoints and nothing else, that of the
last epoch is the soup's, and no other is of a later one. -/
def HoldsRun (files : FileTree) (directory : Path) (g : Grid) (last : UInt32) : Prop :=
  ∃ (made : FileTree) (base : Location) (shelf : Shelf),
    made.IsEmptyDirectory directory base ∧ files = made.stocked base shelf ∧
      shelf.lookup last = some (g.atEpoch last).save ∧ ∀ e ∈ shelf.map (·.1), e ≤ last

namespace HoldsRun

variable {files : FileTree} {directory : Path} {last : UInt32}

theorem read (h : HoldsRun files directory g last) :
    files.read (checkpointPath directory last) = .ok (g.atEpoch last).save := by
  obtain ⟨made, base, shelf, hempty, rfl, hlookup, -⟩ := h
  exact hempty.read_stocked hlookup

/-- The last epoch of a run is the latest checkpoint. -/
theorem latestCheckpoint? (h : HoldsRun files directory g last) :
    files.latestCheckpoint? directory = some (checkpointPath directory last) := by
  obtain ⟨made, base, shelf, hempty, rfl, hlookup, hlast⟩ := h
  exact hempty.latestCheckpoint?_stocked (Shelf.mem_epochs_of_lookup hlookup) hlast

end HoldsRun

section Runs

variable (hmetrics : settings.metrics.enabled = false)
  (hcheckpoints : settings.checkpoint.enabled = true) (hspeed : settings.run.speed ≠ 0)
  (hvalid : settings.world.Valid) (hfix : g.params.fixedShuffle = true)
include hmetrics hcheckpoints hspeed hfix

/-- **A run leaves its last epoch in the directory of checkpoints**, with earlier ones that it has
come to and with what was there before. -/
theorem holdsRun_run (h : (settings.startGrid tree).2 = .ok g) (hle : g.epoch ≤ settings.run.epochs)
    (htakes : tree.TakesCheckpoints made settings.checkpoint.path base shelf)
    (hshelf : ∀ e ∈ shelf.map (·.1), e ≤ settings.run.epochs) (entropy : Nat → UInt64) :
    (run settings entropy tree).2.2.2 = none ∧
      HoldsRun (run settings entropy tree).1 settings.checkpoint.path g settings.run.epochs := by
  obtain ⟨hnone, sent, hsent, htree⟩ := exists_run hmetrics hcheckpoints hspeed h hfix hle entropy
  have hepochs : ∀ e ∈ sent ++ [settings.run.epochs], g.epoch ≤ e ∧ e ≤ settings.run.epochs := by
    simp only [List.forall_mem_append, List.forall_mem_singleton]
    exact ⟨hsent, hle, UInt32.le_refl _⟩
  obtain ⟨hstored, hmem, hlookup⟩ := writeInPlace_snapshotsAt htakes (by simp)
    fun e he => (hepochs e he).1
  refine ⟨hnone, made, base, _, htakes.isEmptyDirectory, htree.trans hstored,
    hlookup _ List.mem_concat_self, fun e he => ?_⟩
  obtain hold | hnew := (hmem e).mp he
  · exact hshelf e hold
  · exact (hepochs e hnew).2

include hvalid

/-- A run from the start, into a vacant directory. -/
theorem holdsRun_fresh (hresume : settings.checkpoint.resumeFrom = "")
    (hfresh : settings.freshGrid (Grid.grow settings.world .zero) = .ok g)
    (hle : g.epoch ≤ settings.run.epochs) (hvacant : tree.Vacant settings.checkpoint.path)
    (entropy : Nat → UInt64) :
    (run settings entropy tree).2.2.2 = none ∧
      HoldsRun (run settings entropy tree).1 settings.checkpoint.path g settings.run.epochs := by
  obtain ⟨made, base, htakes⟩ := hvacant.exists_takes
  have hstart : (settings.startGrid tree).2 = .ok g :=
    (Settings.startGrid_fresh hvalid hresume).trans hfresh
  exact holdsRun_run hmetrics hcheckpoints hspeed hfix hstart hle htakes (by simp) entropy

/-- **A run that goes on from the latest checkpoint**: it is as if the soup had come to the later
epoch at once. -/
theorem HoldsRun.resume (hresume : settings.checkpoint.resumeFrom = latestWord)
    {last : UInt32} (h : HoldsRun tree settings.checkpoint.path g last) (hg : g.WellFormed)
    (hle : g.epoch ≤ last) (hle' : last ≤ settings.run.epochs) (entropy : Nat → UInt64) :
    (run settings entropy tree).2.2.2 = none ∧
      HoldsRun (run settings entropy tree).1 settings.checkpoint.path g settings.run.epochs := by
  have hstart : (settings.startGrid tree).2 = .ok (g.atEpoch last) :=
    Settings.startGrid_resumed hvalid
      ((Settings.resumePath?_latest hresume).trans h.latestCheckpoint?) (hg.atEpoch last) h.read
  obtain ⟨made, base, shelf, hempty, rfl, -, hlast⟩ := h
  have hfix' : (g.atEpoch last).params.fixedShuffle = true := by rw [Grid.params_atEpoch, hfix]
  have hreached : (g.atEpoch last).epoch ≤ settings.run.epochs := by rwa [Grid.epoch_atEpoch hle]
  have hrun := holdsRun_run hmetrics hcheckpoints hspeed hfix' hstart hreached (hempty.takes shelf)
    (fun e he => UInt32.le_trans (hlast e he) hle') entropy
  rwa [HoldsRun, Grid.atEpoch_atEpoch hfix hle hle'] at hrun

end Runs

/-- **An interrupted run that is resumed equals a run without an interruption.**  Take settings that
pass the check, with a fixed shuffle, checkpoints, no censuses and nothing to resume.  Run them to
an epoch `a`, into a vacant directory, and then again to a later epoch `b`, resuming from the latest
checkpoint; and run them to `b` at once, into a vacant directory of the same or another tree.  Each
of the three runs may have its own pace.  None of them fails, and the checkpoint of `b` has the same
bytes in both directories. -/
theorem read_resumed_eq {s : Settings} {warnings : List Warning} (hcheck : s.check = .ok warnings)
    (hfix : s.world.fixedShuffle = true) (hresume : s.checkpoint.resumeFrom = "")
    (hcheckpoints : s.checkpoint.enabled = true) (hmetrics : s.metrics.enabled = false)
    {a b : UInt32} (hab : a ≤ b) {first second whole : Pace} (hfirst : first.speed ≠ 0)
    (hsecond : second.speed ≠ 0) (hwhole : whole.speed ≠ 0) {tree tree' : FileTree}
    {directory : Path} (htree : tree.Vacant s.checkpoint.path) (htree' : tree'.Vacant directory)
    (e₁ e₂ e₃ : Nat → UInt64) :
    let interrupted := run (s.upTo a first) e₁ tree
    let resumed := run (s.upTo b second).resumingLatest e₂ interrupted.1
    let uninterrupted := run ((s.upTo b whole).into directory) e₃ tree'
    interrupted.2.2.2 = none ∧ resumed.2.2.2 = none ∧ uninterrupted.2.2.2 = none ∧
      ∃ bytes, resumed.1.read (checkpointPath s.checkpoint.path b) = .ok bytes ∧
        uninterrupted.1.read (checkpointPath directory b) = .ok bytes := by
  obtain ⟨hvalid, -, hseeds, -, -⟩ := Settings.check_succeeds_iff.mp ⟨warnings, hcheck⟩
  obtain ⟨g, hfresh, hg, hparams, hepoch⟩ := Settings.exists_freshGrid hvalid hseeds
  have hfixed : g.params.fixedShuffle = true := by rw [hparams, hfix]
  have hstart : ∀ e : UInt32, g.epoch ≤ e := fun e => by
    rw [hepoch]
    exact UInt32.zero_le
  -- all three runs are of the same soup, since pace and directory do not matter for its growth
  obtain ⟨hnone₁, hrun₁⟩ := @holdsRun_fresh (s.upTo a first) g tree hmetrics hcheckpoints hfirst
    hvalid hfixed hresume hfresh (hstart a) htree e₁
  obtain ⟨hnone₂, hrun₂⟩ := @HoldsRun.resume (s.upTo b second).resumingLatest g _ hmetrics
    hcheckpoints hsecond hvalid hfixed rfl _ hrun₁ hg (hstart a) hab e₂
  obtain ⟨hnone₃, hrun₃⟩ := @holdsRun_fresh ((s.upTo b whole).into directory) g tree' hmetrics
    hcheckpoints hwhole hvalid hfixed hresume hfresh (hstart b) htree' e₃
  exact ⟨hnone₁, hnone₂, hnone₃, (g.atEpoch b).save, hrun₂.read, hrun₃.read⟩

/-- The standard run of a template with checkpoints, interrupted after a thousand epochs and resumed
at another pace, in a directory that has to be made; the run without an interruption has one that is
there. -/
theorem read_resumed_eq_template :
    let s : Settings :=
      { Settings.template with checkpoint := { CheckpointSettings.standard with enabled := true } }
    let first : Pace := ⟨16, 256, 100⟩
    let second : Pace := ⟨7, 0, 0⟩
    let whole : Pace := ⟨1, 1, 1⟩
    let tree : FileTree := ⟨[(["runs"], .directory), (["runs", "whole"], .directory)]⟩
    let interrupted := run (s.upTo 1000 first) (fun _ => 1) .empty
    let resumed := run (s.upTo 10000 second).resumingLatest (fun _ => 2) interrupted.1
    let uninterrupted := run ((s.upTo 10000 whole).into "runs/whole/") (fun _ => 3) tree
    (s.check = .ok [] ∧ FileTree.empty.Vacant "checkpoints" ∧ tree.Vacant "runs/whole/") ∧
      interrupted.2.2.2 = none ∧ resumed.2.2.2 = none ∧ uninterrupted.2.2.2 = none ∧
        ∃ bytes, resumed.1.read (checkpointPath "checkpoints" 10000) = .ok bytes ∧
          uninterrupted.1.read (checkpointPath "runs/whole/" 10000) = .ok bytes := by
  intro s first second whole tree
  have hcheck : s.check = .ok [] := by decide +kernel
  have hmade : FileTree.empty.makeParents (checkpointPath "checkpoints" 0)
      = (⟨[(["checkpoints"], .directory)]⟩, none) := rfl
  have hmissing := FileTree.vacant_of_makeParents hmade rfl
  have hmade' : tree.makeParents (checkpointPath "runs/whole/" 0) = (tree, none) := rfl
  have hthere := FileTree.vacant_of_makeParents hmade' rfl
  exact ⟨⟨hcheck, hmissing, hthere⟩, read_resumed_eq hcheck rfl rfl rfl rfl (by decide) (by decide)
    (by decide) (by decide) hmissing hthere _ _ _⟩

end Session

end TapeLife
