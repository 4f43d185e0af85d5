import TapeLife.Proofs.Machine.Language

/-!
# Proofs/Machine/Tallies — how the counts of a run bound each other

    neighbour writes + draws ≤ ops,   ops + skipped = steps ≤ budget

The tally of a run is what its trace did, so the counts stand to each other as the instructions
that they count: each does at most one of the things that are counted apart (`Machine.counts_once`),
and so it is with a run (`Machine.bounded_run`).  A machine on a tape of its own has no neighbour to
write to (`Machine.channelWrites_run_alone`).
-/

namespace TapeLife

variable {n budget : Nat} {m : Machine n}

/-- The counts of a run on a budget bound each other. -/
structure Tally.Bounded (budget : Nat) (t : Tally) : Prop where
  steps_le : t.steps ≤ budget
  ops_add_skipped : t.ops + t.skipped = t.steps
  channelWrites_add_randomDraws_le : t.channelWrites + t.randomDraws ≤ t.ops

namespace Machine

/-! ## One instruction -/

/-- The next instruction writes on the first tape of the machine. -/
def WritesOwn (m : Machine n) : Prop := ∃ i, m.target = some i ∧ i.val < tapeSize

instance (m : Machine n) : Decidable m.WritesOwn :=
  inferInstanceAs (Decidable (∃ i, m.target = some i ∧ i.val < tapeSize))

/-- **What writes does something**, and does not draw. -/
theorem isActive_of_target {i : Fin n} (h : m.target = some i) : m.IsActive ∧ ¬ m.Reads '?' := by
  rw [isActive_iff, reads_iff .random rfl]
  constructor <;> intro hop <;> simp [target, hop] at h

theorem isActive_of_draws (h : m.Reads '?') : m.IsActive := ⟨_, by decide, h⟩

/-- **No instruction does two things**: to write on one tape, to write on the other, to draw. -/
theorem counts_once (m : Machine n) :
    (if m.WritesOwn then 1 else 0) + (if m.WritesNeighbour then 1 else 0)
      + (if m.Reads '?' then 1 else 0) ≤ if m.IsActive then 1 else 0 := by
  cases htarget : m.target with
  | none =>
    have hown : ¬ m.WritesOwn := by simp [WritesOwn, htarget]
    have hneighbour : ¬ m.WritesNeighbour := by simp [← any_target_iff, htarget]
    by_cases hdraws : m.Reads '?'
    · simp [hown, hneighbour, hdraws, isActive_of_draws hdraws]
    · simp [hown, hneighbour, hdraws]
  | some i =>
    obtain ⟨hactive, hdraws⟩ := isActive_of_target htarget
    have hown : m.WritesOwn ↔ i.val < tapeSize := by simp [WritesOwn, htarget]
    have hneighbour : m.WritesNeighbour ↔ tapeSize ≤ i.val := by simp [← any_target_iff, htarget]
    simp only [hown, hneighbour, hactive, hdraws, if_true, if_false]
    split_ifs <;> omega

/-! ## A whole run -/

theorem countP_writes_add_draws_le (trace : List (Machine n)) :
    trace.countP (·.WritesOwn) + trace.countP (·.WritesNeighbour) + trace.countP (·.Reads '?')
      ≤ trace.countP (·.IsActive) := by
  induction trace with
  | nil => simp
  | cons m trace ih =>
    have honce := counts_once m
    simp only [List.countP_cons, decide_eq_true_eq]
    omega

/-- A tally is what a trace did that is no longer than the budget. -/
theorem exists_trace_run (budget : Nat) (m : Machine n) :
    ∃ trace : List (Machine n), (m.run budget).tally = .ofTrace trace ∧ trace.length ≤ budget := by
  obtain ⟨trace, hexec, htally⟩ := executes_run budget m
  have hlength : (trace.length : ℕ∞) ≤ budget := hexec.length_eq ▸ min_le_left _ _
  exact ⟨trace, htally, Nat.cast_le.mp hlength⟩

/-- **The counts of a run bound each other.** -/
theorem bounded_run (budget : Nat) (m : Machine n) : (m.run budget).tally.Bounded budget := by
  obtain ⟨trace, htally, hlength⟩ := exists_trace_run budget m
  rw [htally]
  refine ⟨hlength, ?_, ?_⟩
  · simpa [Tally.ofTrace] using (trace.length_eq_countP_add_countP fun m => decide m.IsActive).symm
  · have hle := countP_writes_add_draws_le trace
    simp only [Tally.ofTrace]
    omega

/-- **Alone on its tape a machine writes to nobody.** -/
theorem channelWrites_run_alone (budget : Nat) (m : Machine tapeSize) :
    (m.run budget).tally.channelWrites = 0 := by
  obtain ⟨trace, htally, -⟩ := exists_trace_run budget m
  rw [htally, Tally.ofTrace, List.countP_eq_zero]
  intro m _ hwrites
  obtain ⟨-, hle⟩ | ⟨-, hle⟩ : m.WritesNeighbour := of_decide_eq_true hwrites
  · exact absurd m.head0.isLt (Nat.not_lt.mpr hle)
  · exact absurd m.head1.isLt (Nat.not_lt.mpr hle)

end Machine

/-! ## Runs of cells -/

namespace Cell

theorem bounded_runAlone (budget : Nat) (cell : Cell) : (cell.runAlone budget).2.Bounded budget :=
  Machine.bounded_run budget cell.machineAlone

theorem channelWrites_runAlone (budget : Nat) (cell : Cell) :
    (cell.runAlone budget).2.channelWrites = 0 :=
  Machine.channelWrites_run_alone budget cell.machineAlone

theorem bounded_runBeside (budget : Nat) (cell : Cell) (neighbour : Tape) :
    (cell.runBeside budget neighbour).2.2.Bounded budget :=
  Machine.bounded_run budget (cell.machineBeside neighbour)

end Cell

end TapeLife
