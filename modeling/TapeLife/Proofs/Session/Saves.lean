import TapeLife.Proofs.Session.Start

/-!
# Proofs/Session/Saves — which epochs a run leaves behind

    0 ──▸ speed ──▸ 2 · speed ──▸ … ──▸ epochs          ends of batches, the last one cut short
            saved wherever a multiple of the interval was passed, and at the end

A run from epoch zero looks at its soup at the ends of its batches and nowhere else, and comes to
the epoch that was asked for and not beyond (`OnSchedule.batches`).  An interval is crossed exactly
if a multiple of it was passed (`crossed_iff`), so what is sent at the end of a batch can be said
without the run (`Settings.Saves`), and that is what is found in the directory
(`checkpoints_of_run`).
-/

namespace TapeLife

/-! ## The schedule of a run -/

/-- Where a batch of a run from epoch zero begins, by its number; all batches are of one length but
for the last one, which ends with the run. -/
def RunSettings.batchStart (r : RunSettings) (k : Nat) : Nat :=
  min (k * r.speed.toNat) r.epochs.toNat

namespace RunSettings

variable {r : RunSettings} {j k : Nat}

theorem batchStart_le (r : RunSettings) (k : Nat) : r.batchStart k ≤ r.epochs.toNat :=
  Nat.min_le_right ..

theorem batchStart_mono (h : j ≤ k) : r.batchStart j ≤ r.batchStart k :=
  min_le_min_right _ (Nat.mul_le_mul_right _ h)

theorem batchStart_succ (r : RunSettings) (k : Nat) :
    r.batchStart (k + 1) = min (r.batchStart k + r.speed.toNat) r.epochs.toNat := by
  rw [batchStart, batchStart, Nat.succ_mul]
  omega

/-- As many batches as epochs are enough. -/
theorem batchStart_epochs (hspeed : r.speed ≠ 0) (hk : r.epochs.toNat ≤ k) :
    r.batchStart k = r.epochs.toNat := by
  have hpos : 0 < r.speed.toNat := Nat.pos_of_ne_zero fun h => hspeed (UInt32.toNat_inj.mp h)
  exact Nat.min_eq_right (hk.trans (Nat.le_mul_of_pos_right k hpos))

/-- The epoch that a batch begins with. -/
def epochOf (r : RunSettings) (k : Nat) : UInt32 := .ofNat (r.batchStart k)

theorem toNat_epochOf (r : RunSettings) (k : Nat) : (r.epochOf k).toNat = r.batchStart k :=
  UInt32.toNat_ofNat_of_lt' (Nat.lt_of_le_of_lt (r.batchStart_le k) r.epochs.toNat_lt)

end RunSettings

namespace Settings

variable {s : Settings} {e : UInt32} {k : Nat}

/-- A multiple of the interval of checkpoints falls into a batch: it comes after the beginning, and
not after the end. -/
def Passes (s : Settings) (k : Nat) : Prop :=
  ∃ m, s.run.batchStart k < m * s.checkpoint.interval.toNat ∧
    m * s.checkpoint.interval.toNat ≤ s.run.batchStart (k + 1)

/-- The epochs that a run from epoch zero saves: the ends of the batches that a multiple of the
interval falls into, and the last epoch. -/
def Saves (s : Settings) (e : UInt32) : Prop :=
  e = s.run.epochs ∨ ∃ k, s.Passes k ∧ e.toNat = s.run.batchStart (k + 1)

/-- After the last epoch nothing is passed. -/
theorem Passes.batchStart_lt (h : s.Passes k) : s.run.batchStart k < s.run.epochs.toNat := by
  obtain ⟨m, hlt, hle⟩ := h
  exact Nat.lt_of_lt_of_le hlt (hle.trans (s.run.batchStart_le _))

theorem Passes.lt_epochs (h : s.Passes k) (hspeed : s.run.speed ≠ 0) : k < s.run.epochs.toNat :=
  Nat.lt_of_not_le fun hk =>
    Nat.ne_of_lt h.batchStart_lt (RunSettings.batchStart_epochs hspeed hk)

/-- A multiple of the speed that falls into a whole batch is the end of the batch. -/
theorem eq_of_dvd_of_lt_of_le {speed n : Nat} (hdvd : speed ∣ n) (hlt : k * speed < n)
    (hle : n ≤ (k + 1) * speed) : n = (k + 1) * speed := by
  obtain ⟨c, rfl⟩ := hdvd
  rw [Nat.mul_comm speed] at hlt hle ⊢
  have hpos : 0 < speed := Nat.pos_of_ne_zero fun h => by simp [h] at hlt
  have hc : c = k + 1 := Nat.le_antisymm (Nat.le_of_mul_le_mul_right hle hpos)
    (Nat.lt_of_mul_lt_mul_right hlt)
  rw [hc]

/-- **If the interval is a multiple of the speed**, what is saved before the end are the multiples of
the interval. -/
theorem saves_iff_dvd (hdvd : s.run.speed.toNat ∣ s.checkpoint.interval.toNat)
    (hne : e ≠ s.run.epochs) :
    s.Saves e ↔ 0 < e.toNat ∧ e.toNat < s.run.epochs.toNat ∧
      s.checkpoint.interval.toNat ∣ e.toNat := by
  have hne' : e.toNat ≠ s.run.epochs.toNat := fun h => hne (UInt32.toNat_inj.mp h)
  rw [Saves, or_iff_right hne]
  simp only [Passes, RunSettings.batchStart]
  constructor
  · rintro ⟨k, ⟨m, hlt, hle⟩, he⟩
    -- the batch is a whole one, since it does not end with the run
    have hend : e.toNat = (k + 1) * s.run.speed.toNat := by omega
    have hstart : min (k * s.run.speed.toNat) s.run.epochs.toNat = k * s.run.speed.toNat := by
      rw [Nat.succ_mul] at hend
      omega
    have hm := eq_of_dvd_of_lt_of_le (hdvd.mul_left m) (hstart ▸ hlt) (by omega)
    exact ⟨by omega, by omega, m, by rw [hend, ← hm, Nat.mul_comm]⟩
  · rintro ⟨hpos, hlt, m, hm⟩
    obtain ⟨c, hc⟩ := hdvd.trans (Dvd.intro m hm.symm)
    obtain ⟨k, rfl⟩ : ∃ k, c = k + 1 := Nat.exists_eq_add_one.mpr
      (Nat.pos_of_ne_zero fun h => by simp [hc, h] at hpos)
    have hend : (k + 1) * s.run.speed.toNat = e.toNat := by rw [hc, Nat.mul_comm]
    have hspeed : 0 < s.run.speed.toNat := Nat.pos_of_ne_zero fun h => by simp [hc, h] at hpos
    have hlater : k * s.run.speed.toNat < (k + 1) * s.run.speed.toNat :=
      Nat.mul_lt_mul_of_pos_right k.lt_succ_self hspeed
    rw [Nat.mul_comm] at hm
    refine ⟨k, ⟨m, ?_, ?_⟩, ?_⟩ <;> omega

end Settings

namespace Session

variable {settings : Settings} {s : Session} {g : Grid} {tree : FileTree}

/-- **An interval is crossed if one of its multiples is passed.** -/
theorem crossed_iff {before after interval : UInt32} (hle : before ≤ after) :
    crossed before after interval = true ↔
      ∃ m, before.toNat < m * interval.toNat ∧ m * interval.toNat ≤ after.toNat := by
  have hle' := UInt32.le_iff_toNat_le.mp hle
  rw [crossed, Bool.and_eq_true, decide_eq_true_iff, bne_iff_ne, Ne, ← UInt32.toNat_inj,
    UInt32.toNat_div, UInt32.toNat_div, UInt32.lt_iff_toNat_lt]
  change 0 < interval.toNat ∧ _ ↔ _
  constructor
  · rintro ⟨hpos, hne⟩
    have hlt : before.toNat / interval.toNat < after.toNat / interval.toNat :=
      Nat.lt_of_le_of_ne (Nat.div_le_div_right hle') hne
    exact ⟨_, (Nat.div_lt_iff_lt_mul hpos).mp hlt, Nat.div_mul_le_self _ _⟩
  · rintro ⟨m, hlt, hge⟩
    have hpos : 0 < interval.toNat := Nat.pos_of_ne_zero fun h => by simp [h] at hlt
    refine ⟨hpos, Nat.ne_of_lt ?_⟩
    exact Nat.lt_of_lt_of_le ((Nat.div_lt_iff_lt_mul hpos).mpr hlt)
      ((Nat.le_div_iff_mul_le hpos).mpr hge)

/-! ## The loop -/

/-- A run that is done does nothing more. -/
theorem batches_of_done (h : ¬ s.grid.epoch < settings.run.epochs) (entropy : Nat → UInt64)
    (left : Nat) : s.batches settings entropy left = s := by
  cases left with
  | zero => rfl
  | succ left => rw [batches, if_neg h]

/-- Once the loop is done, more turns of it change nothing. -/
theorem batches_add {left : Nat} {entropy : Nat → UInt64}
    (h : ¬ (s.batches settings entropy left).grid.epoch < settings.run.epochs) (more : Nat) :
    s.batches settings entropy (left + more) = s.batches settings entropy left := by
  induction left generalizing s entropy with
  | zero => rw [Nat.zero_add]; exact batches_of_done h entropy more
  | succ left ih =>
    rw [Nat.add_right_comm]
    by_cases hlt : s.grid.epoch < settings.run.epochs
    · rw [batches, if_pos hlt] at h ⊢
      rw [ih h, batches, if_pos hlt]
    · rw [batches_of_done hlt, batches_of_done hlt]

/-- **A run from epoch zero is on schedule after some batches**: it has come to the end of the last
of them, it has sent its soup at the end of each that a multiple of the interval falls into, and it
has not touched the files. -/
structure OnSchedule (settings : Settings) (g : Grid) (tree : FileTree) (k : Nat) (s : Session) :
    Prop where
  grid_eq : s.grid = g.atEpoch (settings.run.epochOf k)
  tree_eq : s.tree = tree
  log_eq : s.log = .nowhere
  queue_eq : ∃ sent : List UInt32,
    s.queue = some ⟨g.snapshotsAt settings.checkpoint.path sent, [], false⟩ ∧
      ∀ e, e ∈ sent ↔
        ∃ j < k, settings.Passes j ∧ e.toNat = settings.run.batchStart (j + 1)

theorem IsFresh.onSchedule (h : IsFresh g tree s) (hg : g.epoch = 0) :
    OnSchedule settings g tree 0 s where
  grid_eq := by
    have hzero : settings.run.epochOf 0 = g.epoch := by
      rw [hg, RunSettings.epochOf, RunSettings.batchStart, Nat.zero_mul, Nat.zero_min]
      rfl
    rw [h.grid_eq, hzero, Grid.atEpoch_self]
  tree_eq := h.tree_eq
  log_eq := h.log_eq
  queue_eq := ⟨[], h.queue_eq, by simp⟩

namespace OnSchedule

variable {k : Nat} (h : OnSchedule settings g tree k s) (hg : g.epoch = 0)
include h hg

theorem epoch_eq : s.grid.epoch = settings.run.epochOf k := by
  rw [h.grid_eq, Grid.epoch_atEpoch (hg ▸ UInt32.zero_le)]

/-- A run that is done is on schedule after any number of batches more. -/
theorem of_done (hdone : ¬ s.grid.epoch < settings.run.epochs) (more : Nat) :
    OnSchedule settings g tree (k + more) s := by
  have hend : settings.run.batchStart k = settings.run.epochs.toNat := by
    rw [h.epoch_eq hg, UInt32.lt_iff_toNat_lt, RunSettings.toNat_epochOf, not_lt] at hdone
    exact Nat.le_antisymm (RunSettings.batchStart_le _ _) hdone
  have hend' : settings.run.batchStart (k + more) = settings.run.epochs.toNat :=
    Nat.le_antisymm (RunSettings.batchStart_le _ _)
      (hend ▸ RunSettings.batchStart_mono (Nat.le_add_right ..))
  obtain ⟨sent, hqueue, hsent⟩ := h.queue_eq
  refine ⟨?_, h.tree_eq, h.log_eq, sent, hqueue, fun e => (hsent e).trans ?_⟩
  · rw [h.grid_eq, RunSettings.epochOf, RunSettings.epochOf, hend, hend']
  · constructor
    · rintro ⟨j, hj, hpasses⟩
      exact ⟨j, Nat.lt_add_right _ hj, hpasses⟩
    · rintro ⟨j, -, hpasses, he⟩
      have hlt := hpasses.batchStart_lt
      refine ⟨j, Nat.lt_of_not_le fun hkj => ?_, hpasses, he⟩
      exact Nat.not_lt.mpr (hend ▸ RunSettings.batchStart_mono hkj) hlt

variable (hmetrics : settings.metrics.enabled = false) (hfix : g.params.fixedShuffle = true)
include hmetrics hfix

/-- **A batch keeps a run on schedule.** -/
theorem batch (entropy : Nat → UInt64) :
    OnSchedule settings g tree (k + 1) (s.batch settings entropy) := by
  have hepoch := h.epoch_eq hg
  have hstart : s.grid.epoch.toNat = settings.run.batchStart k := by
    rw [hepoch, RunSettings.toNat_epochOf]
  have hend : (settings.run.epochOf (k + 1)).toNat
      = min (s.grid.epoch.toNat + settings.run.speed.toNat) settings.run.epochs.toNat := by
    rw [RunSettings.toNat_epochOf, RunSettings.batchStart_succ, hstart]
  have hle : s.grid.epoch ≤ settings.run.epochs := by
    rw [UInt32.le_iff_toNat_le, hstart]
    exact RunSettings.batchStart_le _ _
  have hlater : s.grid.epoch ≤ settings.run.epochOf (k + 1) := by
    rw [UInt32.le_iff_toNat_le, hstart, RunSettings.toNat_epochOf]
    exact RunSettings.batchStart_mono k.le_succ
  obtain ⟨hgrid, htree, hlog, hqueue⟩ := batch_atEpoch hmetrics hfix
    (hepoch ▸ h.grid_eq) (hg ▸ UInt32.zero_le) hle hend entropy
  have hcrossed : crossed s.grid.epoch (settings.run.epochOf (k + 1)) settings.checkpoint.interval
      = true ↔ settings.Passes k := by
    rw [crossed_iff hlater, hstart, RunSettings.toNat_epochOf]
    rfl
  obtain ⟨sent, hwaiting, hsent⟩ := h.queue_eq
  refine ⟨hgrid, htree.trans h.tree_eq, hlog.trans h.log_eq, ?_⟩
  rw [hqueue, hwaiting]
  simp only [Nat.exists_lt_succ_right, ← hsent, ← hcrossed]
  split
  · rename_i hpasses
    refine ⟨sent ++ [settings.run.epochOf (k + 1)], ?_, fun e => ?_⟩
    · rw [Option.map_some, send_snapshotsAt]
    · rw [List.mem_append, List.mem_singleton, ← UInt32.toNat_inj, RunSettings.toNat_epochOf,
        and_iff_right hpasses]
  · rename_i hpasses
    exact ⟨sent, rfl, fun e => (or_iff_left fun h => hpasses h.1).symm⟩

/-- **A run stays on schedule**, however many turns its loop takes. -/
theorem batches (left : Nat) (entropy : Nat → UInt64) :
    OnSchedule settings g tree (k + left) (s.batches settings entropy left) := by
  induction left generalizing s k entropy with
  | zero => exact h
  | succ left ih =>
    by_cases hlt : s.grid.epoch < settings.run.epochs
    · rw [Session.batches, if_pos hlt, Nat.add_comm left, ← Nat.add_assoc]
      exact ih (h.batch hg hmetrics hfix entropy) _
    · rw [batches_of_done hlt]
      exact h.of_done hg hlt _

end OnSchedule

/-! ## What is left behind -/

theorem complete_eq (h : IsFresh g tree s) (hg : g.epoch = 0) (entropy : Nat → UInt64) :
    s.complete settings entropy
      = (s.batches settings entropy settings.run.epochs.toNat).finish settings 0 := by
  have hstart : s.grid.epoch = 0 := by rw [h.grid_eq, hg]
  rw [complete, hstart]
  rfl

section Complete

variable (hmetrics : settings.metrics.enabled = false) (hspeed : settings.run.speed ≠ 0)
  (hfix : g.params.fixedShuffle = true) (hg : g.epoch = 0) (h : IsFresh g tree s)
include hmetrics hspeed hfix hg h

/-- **The loop comes to the epoch that was asked for**, on schedule. -/
theorem IsFresh.batches_epochs (entropy : Nat → UInt64) :
    let last := s.batches settings entropy settings.run.epochs.toNat
    OnSchedule settings g tree settings.run.epochs.toNat last ∧
      last.grid.epoch = settings.run.epochs := by
  intro last
  have hlast : OnSchedule settings g tree (0 + settings.run.epochs.toNat) last :=
    (h.onSchedule hg).batches hg hmetrics hfix _ entropy
  rw [Nat.zero_add] at hlast
  refine ⟨hlast, ?_⟩
  rw [hlast.epoch_eq hg, ← UInt32.toNat_inj, RunSettings.toNat_epochOf,
    RunSettings.batchStart_epochs hspeed (Nat.le_refl _)]

/-- **A run leaves behind what is saved on its schedule**, and nothing else. -/
theorem IsFresh.exists_shelf {made : FileTree} {base : Location}
    (htakes : tree.TakesCheckpoints made settings.checkpoint.path base [])
    (entropy : Nat → UInt64) :
    ∃ shelf : Shelf, (s.complete settings entropy).tree = made.stocked base shelf ∧
      (shelf.map (·.1)).Nodup ∧ (∀ e, e ∈ shelf.map (·.1) ↔ settings.Saves e) ∧
      ∀ e, settings.Saves e → shelf.lookup e = some (g.atEpoch e).save := by
  obtain ⟨hlast, hepoch⟩ := h.batches_epochs hmetrics hspeed hfix hg entropy
  obtain ⟨sent, hqueue, hsent⟩ := hlast.queue_eq
  have hsaves : ∀ e, e ∈ sent ++ [settings.run.epochs] ↔ settings.Saves e := by
    intro e
    rw [List.mem_append, List.mem_singleton, Or.comm, Settings.Saves, hsent]
    refine or_congr_right (exists_congr fun j => and_iff_right_of_imp fun hj => ?_)
    exact hj.1.lt_epochs hspeed
  obtain ⟨hstored, hmem, hlookup⟩ := writeInPlace_snapshotsAt (g := g) htakes
    (List.concat_ne_nil settings.run.epochs sent) fun e _ => hg ▸ UInt32.zero_le
  have hgrid := hlast.grid_eq.trans
    (congrArg g.atEpoch ((hlast.epoch_eq hg).symm.trans hepoch))
  refine ⟨_, ?_, ?_, fun e => ?_, fun e he => hlookup e ((hsaves e).mpr he)⟩
  · rw [complete_eq h hg, tree_finish hmetrics hgrid hepoch hlast.log_eq hqueue, hlast.tree_eq]
    exact hstored
  · have hempty : (([] : Shelf).map (·.1)).Nodup := List.nodup_nil
    exact Shelf.nodup_storeAll hempty _
  · rw [hmem, hsaves, List.map_nil, or_iff_right List.not_mem_nil]

end Complete

/-- **A run leaves exactly the right checkpoints.**  Take settings that pass the check, with a fixed
shuffle, checkpoints, no censuses and nothing to resume, and a vacant directory.  The loop comes to
the end of one batch after another, never beyond the epoch that was asked for, and is done when it
has come there.  The run does not fail, and afterwards the directory holds the checkpoints of the
epochs that are saved on its schedule and nothing else.  Each of them is loaded as the soup of the
start after so many epochs.  If the interval is a multiple of the speed, the checkpoints before the
last epoch are those of the multiples of the interval. -/
theorem checkpoints_of_run {s : Settings} {warnings : List Warning}
    (hcheck : s.check = .ok warnings)
    (hfix : s.world.fixedShuffle = true) (hresume : s.checkpoint.resumeFrom = "")
    (hcheckpoints : s.checkpoint.enabled = true) (hmetrics : s.metrics.enabled = false)
    {tree : FileTree} (hvacant : tree.Vacant s.checkpoint.path) (entropy : Nat → UInt64) :
    ∃ (g : Grid) (first : Session),
      (s.startGrid tree).2 = .ok g ∧ (start s tree).2.2 = .ok first ∧
      (∀ k, (first.batches s entropy k).grid.epoch.toNat
        = min (k * s.run.speed.toNat) s.run.epochs.toNat) ∧
      let last := first.batches s entropy s.run.epochs.toNat
      let done := last.finish s 0
      last.grid.epoch = s.run.epochs ∧
      (∀ more, first.batches s entropy (s.run.epochs.toNat + more) = last) ∧
      run s entropy tree = (done.tree, done.events, done.writerEvents, none) ∧
      ∃ names, done.tree.list s.checkpoint.path = .ok names ∧ names.Nodup ∧
        (∀ name, name ∈ names ↔ ∃ e, s.Saves e ∧ name = checkpointName e) ∧
        (∀ e, s.Saves e → ∃ bytes,
          done.tree.read (checkpointPath s.checkpoint.path e) = .ok bytes ∧
            ∀ entropy', Grid.ofSaved bytes = .ok (g.compute entropy' e.toNat).1) ∧
        (s.run.speed.toNat ∣ s.checkpoint.interval.toNat → ∀ e, e ≠ s.run.epochs →
          (checkpointName e ∈ names ↔ 0 < e.toNat ∧ e.toNat < s.run.epochs.toNat ∧
            s.checkpoint.interval.toNat ∣ e.toNat)) := by
  obtain ⟨hvalid, hspeed, hseeds, -, -⟩ := Settings.check_succeeds_iff.mp ⟨warnings, hcheck⟩
  obtain ⟨g, hfresh, hg, hparams, hepoch⟩ := Settings.exists_freshGrid hvalid hseeds
  have hfixed : g.params.fixedShuffle = true := by rw [hparams, hfix]
  have hgrid : (s.startGrid tree).2 = .ok g :=
    (Settings.startGrid_fresh hvalid hresume).trans hfresh
  obtain ⟨events, first, hstart, hfirst⟩ := exists_start hmetrics hcheckpoints hgrid
  obtain ⟨made, base, htakes⟩ := hvacant.exists_takes
  obtain ⟨shelf, htree, hnodup, hmem, hlookup⟩ :=
    hfirst.exists_shelf hmetrics hspeed hfixed hepoch htakes entropy
  have hlast := (hfirst.batches_epochs hmetrics hspeed hfixed hepoch entropy).2
  have hempty := htakes.isEmptyDirectory
  have hnames : ∀ name, name ∈ shelf.map (fun saved => checkpointName saved.1) ↔
      ∃ e, s.Saves e ∧ name = checkpointName e := fun name => by
    rw [Shelf.mem_names]
    simp only [hmem]
  rw [complete_eq hfirst hepoch] at htree
  refine ⟨g, first, hgrid, by rw [hstart], fun k => ?_, hlast, batches_add ?_, ?_, ?_⟩
  · have hk := (hfirst.onSchedule hepoch).batches hepoch hmetrics hfixed k entropy
    rw [hk.epoch_eq hepoch, RunSettings.toNat_epochOf, Nat.zero_add, RunSettings.batchStart]
  · rw [hlast]
    exact UInt32.lt_irrefl _
  · rw [run, hstart, ← complete_eq hfirst hepoch]
  · rw [htree]
    refine ⟨_, hempty.list_stocked shelf, Shelf.nodup_names hnodup, hnames, fun e he => ?_,
      fun hdvd e hne => ?_⟩
    · refine ⟨_, hempty.read_stocked (hlookup e he), fun entropy' => ?_⟩
      rw [Grid.ofSaved_save (hg.atEpoch e), Grid.compute_eq_atEpoch hfixed hepoch]
    · rw [hnames, ← Settings.saves_iff_dvd hdvd hne]
      simp only [checkpointName_inj, exists_eq_right']

/-- A hundred epochs in batches of sixteen, with a multiple of twenty in all of them but two.  The
last epoch is a multiple itself, so it is sent twice, and is there once. -/
theorem checkpoints_of_run_template :
    let s : Settings :=
      { Settings.template with
        run := { RunSettings.standard with epochs := 100 }
        checkpoint := { CheckpointSettings.standard with enabled := true, interval := 20 } }
    (s.check = .ok [.checkpointsBetweenBatches 20 16] ∧ FileTree.empty.Vacant "checkpoints") ∧
      ∃ names, (run s (fun _ => 1) .empty).1.list "checkpoints" = .ok names ∧ names.Nodup ∧
        ∀ name, name ∈ names ↔ ∃ e ∈ [32, 48, 64, 80, 100], name = checkpointName e := by
  intro s
  have hcheck : s.check = .ok [.checkpointsBetweenBatches 20 16] := by decide +kernel
  have hmade : FileTree.empty.makeParents (checkpointPath "checkpoints" 0)
      = (⟨[(["checkpoints"], .directory)]⟩, none) := rfl
  have hvacant := FileTree.vacant_of_makeParents hmade rfl
  have hsaves : ∀ e, s.Saves e ↔ e ∈ [32, 48, 64, 80, 100] := by
    intro e
    change (e = 100 ∨ ∃ k, (∃ m, min (k * 16) 100 < m * 20 ∧ m * 20 ≤ min ((k + 1) * 16) 100) ∧
      e.toNat = min ((k + 1) * 16) 100) ↔ _
    simp only [List.mem_cons, List.not_mem_nil, or_false, ← UInt32.toNat_inj, UInt32.reduceToNat]
    constructor
    · rintro (h | ⟨k, ⟨m, hlt, hle⟩, he⟩) <;> omega
    · rintro (h | h | h | h | h)
      · exact .inr ⟨1, ⟨1, by decide, by decide⟩, h⟩
      · exact .inr ⟨2, ⟨2, by decide, by decide⟩, h⟩
      · exact .inr ⟨3, ⟨3, by decide, by decide⟩, h⟩
      · exact .inr ⟨4, ⟨4, by decide, by decide⟩, h⟩
      · exact .inl h
  obtain ⟨g, first, -, -, -, -, -, hrun, names, hlist, hnodup, hnames, -⟩ :=
    checkpoints_of_run hcheck rfl rfl rfl rfl hvacant fun _ => 1
  refine ⟨⟨hcheck, hvacant⟩, names, ?_, hnodup, fun name => (hnames name).trans ?_⟩
  · rw [hrun]
    exact hlist
  · simp only [hsaves]

end Session

end TapeLife
