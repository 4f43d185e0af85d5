import TapeLife.Settings.Check

/-!
# Proofs/Settings/Check — what settings must be for a run to begin

The check goes through the sections in order and stops at the first thing that makes a run
impossible.  So it succeeds exactly if every section is in order on its own
(`check_succeeds_iff`).
-/

namespace TapeLife

namespace Settings

variable {s : Settings} {p : Params}

/-- A seed that can be planted: it has a program, and a place on the grid. -/
structure CanPlant (p : Params) (seed : SeedSettings) : Prop where
  column : 0 ≤ seed.x.toInt ∧ seed.x.toInt < p.width.toNat
  row : 0 ≤ seed.y.toInt ∧ seed.y.toInt < p.height.toNat
  program : ∃ program, seed.toProgram = .ok program

theorem seedFault?_eq_none_iff {number : Nat} {seeds : List SeedSettings} :
    seedFault? p number seeds = none ↔ ∀ seed ∈ seeds, CanPlant p seed := by
  induction seeds generalizing number with
  | nil => simp [seedFault?]
  | cons seed rest ih =>
    rw [seedFault?, List.forall_mem_cons]
    split
    · rename_i hin
      rcases hprogram : seed.toProgram with cause | program
      · refine iff_of_false nofun fun h => ?_
        obtain ⟨program, hok⟩ := h.1.program
        rw [hprogram] at hok
        cases hok
      · exact ih.trans (and_iff_right ⟨⟨hin.1, hin.2.1⟩, hin.2.2, program, hprogram⟩).symm
    · rename_i hout
      exact iff_of_false nofun fun h => hout ⟨h.1.column.1, h.1.column.2, h.1.row.1, h.1.row.2⟩

theorem checkCheckpoint_succeeds_iff : (∃ warnings, s.checkCheckpoint = .ok warnings) ↔
    (s.checkpoint.enabled = true → s.checkpoint.path ≠ "") := by
  rw [checkCheckpoint]
  split
  · simp_all
  · split
    · simp_all
    · split <;> simp_all

theorem checkMetrics_succeeds_iff : (∃ warnings, s.checkMetrics = .ok warnings) ↔
    (s.metrics.enabled = true → s.metrics.interval ≠ 0) := by
  rw [checkMetrics]
  split
  · simp_all
  · split <;> simp_all

/-- **Settings pass the check exactly if every section is in order.** -/
theorem check_succeeds_iff : (∃ warnings, s.check = .ok warnings) ↔
    s.world.Valid ∧ s.run.speed ≠ 0 ∧ (∀ seed ∈ s.seeds, CanPlant s.world seed) ∧
      (s.checkpoint.enabled = true → s.checkpoint.path ≠ "") ∧
      (s.metrics.enabled = true → s.metrics.interval ≠ 0) := by
  rw [← Params.fault?_eq_none_iff, ← @seedFault?_eq_none_iff _ 0, ← checkCheckpoint_succeeds_iff,
    ← checkMetrics_succeeds_iff]
  simp only [check, bind, Except.bind, throw, throwThe, MonadExceptOf.throw, pure, Except.pure]
  rcases s.world.fault? with _ | cause
  · by_cases hspeed : s.run.speed = 0
    · simp [hspeed]
    · rcases seedFault? s.world 0 s.seeds with _ | fault
      · rcases s.checkCheckpoint with fault | warnings <;>
          rcases s.checkMetrics with fault' | warnings' <;> simp [hspeed]
      · simp [hspeed]
  · simp

end Settings

end TapeLife
