import TapeLife.Proofs.Checkpoint.Queue
import TapeLife.Proofs.Grid.Timeline
import TapeLife.Session.Run

/-!
# Proofs/Session/Run — a run ends with the epoch that was asked for

    start ──batch──▸ … ──batch──▸ last epoch ──save, close the queue──▸ files

Under a fixed shuffle and without censuses, a run goes through the later epochs of the soup it began
with, at its own pace, and the snapshots it sends are soups of epochs that it has come to
(`Session.Underway`).  A batch keeps that and comes to a later epoch, at most to the one that was
asked for (`Underway.batch`), so the batches end there (`Underway.batches`).  Nothing is written
before the queue is closed, and then everything that was sent is written, the last epoch at the end
(`exists_tree_complete`).
-/

namespace TapeLife

namespace Session

variable {settings : Settings} {s : Session} {g : Grid} {tree : FileTree}

/-! ## One batch -/

/-- **What a batch does** to a run, its reports apart. -/
theorem batch_eq (settings : Settings) (entropy : Nat → UInt64) (s : Session) :
    let next := (s.grid.advance entropy (batchSize settings s.grid).toNat).1
    let after := s.batch settings entropy
    after.grid = next ∧
      (after.tree, after.log) =
        (if settings.metrics.enabled && crossed s.grid.epoch next.epoch settings.metrics.interval
          then s.log.record s.tree unmeasured (Census.ofGrid next) else (s.tree, s.log)) ∧
      after.queue =
        if crossed s.grid.epoch next.epoch settings.checkpoint.interval then
          s.queue.map fun q =>
            q.send (next.snapshot (checkpointPath settings.checkpoint.path next.epoch))
        else s.queue := by
  simp only [batch]
  rcases s.grid.advance entropy (batchSize settings s.grid).toNat with ⟨grid, reports⟩
  by_cases hreport : crossed s.grid.epoch grid.epoch settings.run.reportInterval <;>
    by_cases hcensus : (settings.metrics.enabled &&
      crossed s.grid.epoch grid.epoch settings.metrics.interval) = true <;>
    by_cases hsave : crossed s.grid.epoch grid.epoch settings.checkpoint.interval <;>
    simp [hreport, hcensus, hsave, report, sendSnapshot, takeCensus, Medium.roomy]

/-- Without censuses a batch leaves the files alone. -/
theorem batch_of_no_censuses (hmetrics : settings.metrics.enabled = false)
    (entropy : Nat → UInt64) (s : Session) :
    (s.batch settings entropy).tree = s.tree ∧ (s.batch settings entropy).log = s.log := by
  have hwritten := (batch_eq settings entropy s).2.1
  rw [hmetrics, Bool.false_and, if_neg Bool.false_ne_true] at hwritten
  exact Prod.mk.inj hwritten

/-- A batch is as long as the settings say, and no longer than the way that is left. -/
theorem toNat_batchSize (hle : s.grid.epoch ≤ settings.run.epochs) :
    (batchSize settings s.grid).toNat
      = min settings.run.speed.toNat (settings.run.epochs.toNat - s.grid.epoch.toNat) := by
  have hmin : batchSize settings s.grid =
      if settings.run.speed ≤ settings.run.epochs - s.grid.epoch then settings.run.speed
      else settings.run.epochs - s.grid.epoch := rfl
  rw [hmin, ← UInt32.toNat_sub_of_le _ _ hle]
  split
  · rename_i hspeed
    exact (Nat.min_eq_left (UInt32.le_iff_toNat_le.mp hspeed)).symm
  · rename_i hspeed
    have hle := UInt32.le_of_lt (UInt32.not_le.mp hspeed)
    exact (Nat.min_eq_right (UInt32.le_iff_toNat_le.mp hle)).symm

end Session

/-! ## On the way -/

/-- The snapshots of a soup at some of its epochs. -/
def Grid.snapshotsAt (g : Grid) (directory : Path) (epochs : List UInt32) : List Snapshot :=
  epochs.map fun e => (g.atEpoch e).snapshot (checkpointPath directory e)

namespace Session

variable {settings : Settings} {s : Session} {g : Grid} {tree : FileTree}

/-- Snapshots are for the epochs that they were taken at. -/
theorem map_epoch_snapshotsAt {epochs : List UInt32} (hle : ∀ e ∈ epochs, g.epoch ≤ e)
    (directory : Path) : (g.snapshotsAt directory epochs).map (·.epoch) = epochs := by
  have hepoch : ∀ e ∈ epochs,
      ((g.atEpoch e).snapshot (checkpointPath directory e)).epoch = id e :=
    fun e he => Grid.epoch_atEpoch (hle e he)
  rw [Grid.snapshotsAt, List.map_map]
  exact (List.map_congr_left hepoch).trans epochs.map_id

/-- **Snapshots of a soup are stored where checkpoints are taken**: at each of the epochs is the
soup of that epoch, and at the others is what was there before. -/
theorem writeInPlace_snapshotsAt {made : FileTree} {directory : Path} {base : Location}
    {shelf : Shelf} (h : tree.TakesCheckpoints made directory base shelf) {epochs : List UInt32}
    (hne : epochs ≠ []) (hle : ∀ e ∈ epochs, g.epoch ≤ e) :
    let stored := shelf.storeAll (g.snapshotsAt directory epochs)
    (writeInPlace tree (g.snapshotsAt directory epochs)).1 = made.stocked base stored ∧
      (∀ e, e ∈ stored.map (·.1) ↔ e ∈ shelf.map (·.1) ∨ e ∈ epochs) ∧
      ∀ e ∈ epochs, stored.lookup e = some (g.atEpoch e).save := by
  intro stored
  have hepochs := map_epoch_snapshotsAt hle directory
  have hsnapshots : ∀ s ∈ g.snapshotsAt directory epochs,
      s.path = checkpointPath directory s.epoch ∧ s.bytes = (g.atEpoch s.epoch).save := by
    rintro s hs
    obtain ⟨e, he, rfl⟩ := List.mem_map.mp hs
    have hepoch : ((g.atEpoch e).snapshot (checkpointPath directory e)).epoch = e :=
      Grid.epoch_atEpoch (hle e he)
    rw [hepoch]
    exact ⟨rfl, rfl⟩
  refine ⟨writeInPlace_of_takes h ?_ fun s hs => (hsnapshots s hs).1, fun e => ?_, fun e he => ?_⟩
  · rwa [Grid.snapshotsAt, Ne, List.map_eq_nil_iff]
  · rw [Shelf.mem_epochs_storeAll, hepochs]
  · exact Shelf.lookup_storeAll (fun e => (g.atEpoch e).save)
      (fun s hs => (hsnapshots s hs).2) (hepochs.symm ▸ he) shelf

/-- A run that began with a soup has come to one of its later epochs, has sent snapshots of such
epochs, and has not touched the files. -/
structure Underway (settings : Settings) (g : Grid) (tree : FileTree) (s : Session) : Prop where
  grid_eq : s.grid = g.atEpoch s.grid.epoch
  le_epoch : g.epoch ≤ s.grid.epoch
  epoch_le : s.grid.epoch ≤ settings.run.epochs
  tree_eq : s.tree = tree
  log_eq : s.log = .nowhere
  queue_eq : ∃ sent : List UInt32,
    s.queue = some ⟨g.snapshotsAt settings.checkpoint.path sent, [], false⟩ ∧
      ∀ e ∈ sent, g.epoch ≤ e ∧ e ≤ settings.run.epochs

/-- A snapshot that is sent is one more. -/
theorem send_snapshotsAt (directory : Path) (sent : List UInt32) (e : UInt32) :
    WriteQueue.send ⟨g.snapshotsAt directory sent, [], false⟩
        ((g.atEpoch e).snapshot (checkpointPath directory e))
      = ⟨g.snapshotsAt directory (sent ++ [e]), [], false⟩ := by
  simp [WriteQueue.send, Grid.snapshotsAt]

/-- **A batch leads from one epoch of a soup to the next one that is looked at**, and sends the soup
if an interval was crossed on the way. -/
theorem batch_atEpoch (hmetrics : settings.metrics.enabled = false)
    (hfix : g.params.fixedShuffle = true) (hgrid : s.grid = g.atEpoch s.grid.epoch)
    (hle : g.epoch ≤ s.grid.epoch) (hle' : s.grid.epoch ≤ settings.run.epochs) {e : UInt32}
    (he : e.toNat
      = min (s.grid.epoch.toNat + settings.run.speed.toNat) settings.run.epochs.toNat)
    (entropy : Nat → UInt64) :
    let after := s.batch settings entropy
    after.grid = g.atEpoch e ∧ after.tree = s.tree ∧ after.log = s.log ∧
      after.queue =
        if crossed s.grid.epoch e settings.checkpoint.interval then
          s.queue.map fun q =>
            q.send ((g.atEpoch e).snapshot (checkpointPath settings.checkpoint.path e))
        else s.queue := by
  have hsize := toNat_batchSize hle'
  have hle'' := UInt32.le_iff_toNat_le.mp hle'
  have hreach : s.grid.epoch.toNat + (batchSize settings s.grid).toNat = e.toNat := by omega
  have hnext : (s.grid.advance entropy (batchSize settings s.grid).toNat).1 = g.atEpoch e := by
    have hadvance := Grid.advance_atEpoch hfix hle hreach entropy
    rwa [← hgrid] at hadvance
  have hepoch : (g.atEpoch e).epoch = e :=
    Grid.epoch_atEpoch (UInt32.le_trans hle (UInt32.le_iff_toNat_le.mpr (by omega)))
  obtain ⟨hgrid', -, hqueue⟩ := batch_eq settings entropy s
  obtain ⟨htree, hlog⟩ := batch_of_no_censuses hmetrics entropy s
  simp only [hnext, hepoch] at hgrid' hqueue
  exact ⟨hgrid', htree, hlog, hqueue⟩

section Underway

variable (hmetrics : settings.metrics.enabled = false) (hspeed : settings.run.speed ≠ 0)
  (hfix : g.params.fixedShuffle = true)
include hmetrics hspeed hfix

/-- **A batch goes on**, and not too far. -/
theorem Underway.batch (h : Underway settings g tree s) (hlt : s.grid.epoch < settings.run.epochs)
    (entropy : Nat → UInt64) :
    Underway settings g tree (s.batch settings entropy) ∧
      s.grid.epoch < (s.batch settings entropy).grid.epoch := by
  have hspeed' : 0 < settings.run.speed.toNat :=
    Nat.pos_of_ne_zero fun h => hspeed (UInt32.toNat_inj.mp h)
  have hltNat := UInt32.lt_iff_toNat_lt.mp hlt
  have hbound := settings.run.epochs.toNat_lt
  obtain ⟨e, he⟩ : ∃ e : UInt32,
      e.toNat = min (s.grid.epoch.toNat + settings.run.speed.toNat) settings.run.epochs.toNat :=
    ⟨_, UInt32.toNat_ofNat_of_lt' (by change _ < 2 ^ 32; omega)⟩
  have hlater : s.grid.epoch < e := UInt32.lt_iff_toNat_lt.mpr (by omega)
  have hle : g.epoch ≤ e := UInt32.le_trans h.le_epoch (UInt32.le_of_lt hlater)
  have hle' : e ≤ settings.run.epochs := UInt32.le_iff_toNat_le.mpr (by omega)
  obtain ⟨hgrid, htree, hlog, hqueue⟩ :=
    batch_atEpoch hmetrics hfix h.grid_eq h.le_epoch h.epoch_le he entropy
  have hepoch : (s.batch settings entropy).grid.epoch = e := by
    rw [hgrid, Grid.epoch_atEpoch hle]
  obtain ⟨sent, hsent, hepochs⟩ := h.queue_eq
  refine ⟨⟨by rw [hgrid, Grid.epoch_atEpoch hle], hepoch ▸ hle, hepoch ▸ hle',
    htree.trans h.tree_eq, hlog.trans h.log_eq, ?_⟩, hepoch ▸ hlater⟩
  rw [hqueue, hsent]
  split
  · refine ⟨sent ++ [e], ?_, ?_⟩
    · rw [Option.map_some, send_snapshotsAt]
    · simp only [List.forall_mem_append, List.forall_mem_singleton]
      exact ⟨hepochs, hle, hle'⟩
  · exact ⟨sent, rfl, hepochs⟩

/-- **The batches come to the epoch that was asked for.** -/
theorem Underway.batches (h : Underway settings g tree s) {left : Nat}
    (hleft : settings.run.epochs.toNat - s.grid.epoch.toNat ≤ left) (entropy : Nat → UInt64) :
    Underway settings g tree (s.batches settings entropy left) ∧
      (s.batches settings entropy left).grid.epoch = settings.run.epochs := by
  induction left generalizing s entropy with
  | zero =>
    have hle := UInt32.le_iff_toNat_le.mp h.epoch_le
    exact ⟨h, UInt32.toNat_inj.mp (by change s.grid.epoch.toNat = _; omega)⟩
  | succ left ih =>
    rw [Session.batches]
    split
    · rename_i hlt
      obtain ⟨hnext, hlater⟩ := h.batch hmetrics hspeed hfix hlt entropy
      have hlater' := UInt32.lt_iff_toNat_lt.mp hlater
      exact ih hnext (by omega) _
    · rename_i hdone
      exact ⟨h, UInt32.le_antisymm h.epoch_le (UInt32.not_lt.mp hdone)⟩

end Underway

/-! ## A whole run -/

/-- A run that is about to begin with a soup. -/
structure IsFresh (g : Grid) (tree : FileTree) (s : Session) : Prop where
  grid_eq : s.grid = g
  tree_eq : s.tree = tree
  log_eq : s.log = .nowhere
  queue_eq : s.queue = some .fresh

theorem IsFresh.underway (h : IsFresh g tree s) (hle : g.epoch ≤ settings.run.epochs) :
    Underway settings g tree s where
  grid_eq := by rw [h.grid_eq, Grid.atEpoch_self]
  le_epoch := by rw [h.grid_eq]; exact UInt32.le_refl _
  epoch_le := by rw [h.grid_eq]; exact hle
  tree_eq := h.tree_eq
  log_eq := h.log_eq
  queue_eq := ⟨[], h.queue_eq, by simp⟩

/-- At the end the last snapshot is sent, and then everything that was sent is written. -/
theorem tree_finish (hmetrics : settings.metrics.enabled = false) {sent : List UInt32}
    {last : UInt32} (hgrid : s.grid = g.atEpoch last) (hepoch : s.grid.epoch = last)
    (hlog : s.log = .nowhere)
    (hqueue : s.queue = some ⟨g.snapshotsAt settings.checkpoint.path sent, [], false⟩)
    (start : UInt32) :
    (s.finish settings start).tree
      = (writeInPlace s.tree (g.snapshotsAt settings.checkpoint.path (sent ++ [last]))).1 := by
  have hsend : (s.sendSnapshot settings).queue
      = some ⟨g.snapshotsAt settings.checkpoint.path (sent ++ [last]), [], false⟩ := by
    rw [sendSnapshot, hqueue, hepoch, hgrid, Option.map_some, send_snapshotsAt]
  rw [← WriteQueue.fst_shutdown _ [] s.tree]
  simp only [finish, hsend, hmetrics]
  change s.log.close _ = _
  rw [hlog]
  rfl

/-- **A run leaves behind what writing its snapshots in order leaves behind.**  They are soups of
epochs between the first and the last one, and the last one comes last. -/
theorem exists_tree_complete (hmetrics : settings.metrics.enabled = false)
    (hspeed : settings.run.speed ≠ 0) (hfix : g.params.fixedShuffle = true)
    (hle : g.epoch ≤ settings.run.epochs) (h : IsFresh g tree s) (entropy : Nat → UInt64) :
    ∃ sent : List UInt32, (∀ e ∈ sent, g.epoch ≤ e ∧ e ≤ settings.run.epochs) ∧
      (s.complete settings entropy).tree = (writeInPlace tree
        (g.snapshotsAt settings.checkpoint.path (sent ++ [settings.run.epochs]))).1 := by
  have hstart : s.grid.epoch = g.epoch := by rw [h.grid_eq]
  obtain ⟨hend, hepoch⟩ := (h.underway hle).batches hmetrics hspeed hfix (Nat.le_refl _) entropy
  obtain ⟨sent, hqueue, hsent⟩ := hend.queue_eq
  refine ⟨sent, hsent, ?_⟩
  have hlast := hend.grid_eq.trans (congrArg g.atEpoch hepoch)
  rw [complete, tree_finish hmetrics hlast hepoch hend.log_eq hqueue, hend.tree_eq]

end Session

end TapeLife
