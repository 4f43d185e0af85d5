import TapeLife.Proofs.Grid.Batches
import TapeLife.Proofs.Mutation.Chances
import TapeLife.Proofs.Torus

/-!
# Proofs/Grid/Influence — influence spreads one radius per epoch

    agree within (k + 1) · radius ──epoch──▸ agree within k · radius ──▸ … ──▸ agree here

Two soups that pairing cannot tell apart (`Alike`) get the same plan, because a plan looks at shape,
radius, epoch and locks and at nothing else.  In an epoch a cell meets at most one partner, and the
partner is within the radius (`distance_le_of_mem_jobOf`), so what it becomes depends on cells
within the radius (`AgreeWithin.step`).  After `k` epochs it depends on cells within `k` times the
radius (`exists_cell_of_agreeWithin`).
-/

namespace TapeLife

namespace Grid

variable {g h : Grid}

/-! ## Soups that pairing cannot tell apart -/

/-- Two soups that pair alike and run under the same dose, whatever is on their tapes and whatever
they were grown from. -/
structure Alike (g h : Grid) : Prop where
  wellFormed : g.WellFormed ∧ h.WellFormed
  fixedShuffle : g.params.fixedShuffle = true ∧ h.params.fixedShuffle = true
  width : g.params.width = h.params.width
  height : g.params.height = h.params.height
  maxDist : g.params.maxDist = h.params.maxDist
  maxSteps : g.params.maxSteps = h.params.maxSteps
  rate : g.params.rate.same h.params.rate = true
  epoch : g.epoch = h.epoch
  locks : g.locks = h.locks

namespace Alike

theorem torus (hgh : Alike g h) : g.torus = h.torus := by
  rw [Grid.torus, Grid.torus, Params.torus, Params.torus, hgh.width, hgh.height]

theorem dose (hgh : Alike g h) : g.params.dose = h.params.dose := by
  rw [Params.dose, Params.dose, hgh.maxSteps, mutationThreshold_congr hgh.rate]

theorem key (hgh : Alike g h) (entropy entropy' : UInt64) : g.key entropy = h.key entropy' := by
  rw [key_of_fixedShuffle hgh.fixedShuffle.1, key_of_fixedShuffle hgh.fixedShuffle.2, hgh.epoch,
    hgh.width, hgh.height]

/-- **Alike soups have one plan.** -/
theorem plan (hgh : Alike g h) (key : UInt64) : (g.plan key).1 = (h.plan key).1 := by
  change (Plan.make g.torus g.params.maxDist.toNat key g.locks).1
    = (Plan.make h.torus h.params.maxDist.toNat key h.locks).1
  rw [hgh.torus, hgh.maxDist, hgh.locks]

end Alike

/-! ## One epoch -/

/-- After an epoch nothing is locked. -/
theorem locks_stepWith (g : Grid) (key : UInt64) :
    (g.stepWith key).1.locks = Array.replicate g.cells.size false := by
  have hsize := size_cells_stepWith g key
  refine Array.ext_getElem? fun i => ?_
  rw [getElem?_locks, Array.getElem?_replicate, ← hsize, cells_stepWith, Array.getElem?_map,
    Option.map_map]
  split
  · rename_i hi
    rw [Array.size_map] at hi
    rw [Array.getElem?_eq_getElem hi]
    rfl
  · rename_i hi
    rw [Array.size_map] at hi
    rw [Array.getElem?_eq_none (Nat.le_of_not_lt hi)]
    rfl

/-- Alike soups are alike after an epoch. -/
theorem Alike.step (hgh : Alike g h) (entropy entropy' : UInt64) :
    Alike (g.step entropy).1 (h.step entropy').1 where
  wellFormed := ⟨hgh.wellFormed.1.step entropy, hgh.wellFormed.2.step entropy'⟩
  fixedShuffle := hgh.fixedShuffle
  width := hgh.width
  height := hgh.height
  maxDist := hgh.maxDist
  maxSteps := hgh.maxSteps
  rate := hgh.rate
  epoch := by
    change (if g.epoch.toNat + 1 < UInt32.size then g.epoch + 1 else g.epoch)
      = if h.epoch.toNat + 1 < UInt32.size then h.epoch + 1 else h.epoch
    rw [hgh.epoch]
  locks := by
    rw [Grid.step, Grid.step, locks_stepWith, locks_stepWith, hgh.wellFormed.1.size_eq_area,
      hgh.wellFormed.2.size_eq_area, hgh.torus]

/-- **The cells of a cell's job are within the radius.** -/
theorem distance_le_of_mem_jobOf (hg : g.WellFormed) (key : UInt64) {i j : Nat}
    (hj : j ∈ ((g.plan key).1.jobOf i).cells) (hi : i < g.torus.area) :
    j < g.torus.area ∧ g.torus.distance i j ≤ g.params.maxDist.toNat := by
  rcases (g.plan key).1.jobOf_cases i with ⟨pair, hp, hip, hjob⟩ | ⟨-, hjob⟩ <;>
    rw [hjob] at hj
  · have hlt := lt_size_of_mem_plan hg key (mem_membersOf.mpr ⟨pair, hp, hj⟩)
    rw [hg.size_eq_area] at hlt
    have hnear := ((sound_plan hg key).near pair hp).2
    refine ⟨hlt, ?_⟩
    rcases Pair.mem_cells.mp hip with rfl | rfl <;> rcases Pair.mem_cells.mp hj with rfl | rfl
    · simp
    · exact hnear
    · rw [Torus.distance_comm]; exact hnear
    · simp
  · obtain rfl : j = i := List.mem_singleton.mp hj
    exact ⟨hi, by simp⟩

/-! ## What a cell can know -/

/-- Two soups agree on tape and stream of every cell within a radius of a cell. -/
def AgreeWithin (g h : Grid) (centre radius : Nat) : Prop :=
  ∀ i < g.torus.area, g.torus.distance centre i ≤ radius →
    (g.cells[i]?.map fun cell => (cell.tape, cell.stream))
      = h.cells[i]?.map fun cell => (cell.tape, cell.stream)

/-- Without locks a cell is its tape and its stream. -/
theorem getElem?_unlock_eq_iff {i : Nat} :
    ((g.cells[i]?.map fun cell => (cell.tape, cell.stream))
      = h.cells[i]?.map fun cell => (cell.tape, cell.stream)) ↔
      (g.cells.map Cell.unlock)[i]? = (h.cells.map Cell.unlock)[i]? := by
  rw [Array.getElem?_map, Array.getElem?_map]
  rcases g.cells[i]? with _ | ⟨_, tape, stream⟩ <;>
    rcases h.cells[i]? with _ | ⟨_, tape', stream'⟩ <;> simp [Cell.unlock]

/-- A cell on which soups agree in tape, stream and lock is the same cell. -/
theorem getElem?_eq_of_agree (hlocks : g.locks = h.locks) {i : Nat}
    (hagree : (g.cells[i]?.map fun cell => (cell.tape, cell.stream))
      = h.cells[i]?.map fun cell => (cell.tape, cell.stream)) : g.cells[i]? = h.cells[i]? := by
  have hlock := congrArg (fun locks : Array Bool => locks[i]?) hlocks
  simp only [getElem?_locks] at hlock
  rcases hg : g.cells[i]? with _ | ⟨_, tape, stream⟩ <;>
    rcases hh : h.cells[i]? with _ | ⟨_, tape', stream'⟩ <;> simp_all

/-- **In one epoch influence spreads by one radius.** -/
theorem AgreeWithin.step (hgh : Alike g h) {centre radius : Nat} (hc : centre < g.torus.area)
    (hagree : AgreeWithin g h centre (radius + g.params.maxDist.toNat))
    (entropy entropy' : UInt64) :
    AgreeWithin (g.step entropy).1 (h.step entropy').1 centre radius := by
  intro i hi hdist
  change i < g.torus.area at hi
  change g.torus.distance centre i ≤ radius at hdist
  rw [Grid.step, Grid.step, hgh.key entropy entropy',
    getElem?_stepWith hgh.wellFormed.1, getElem?_stepWith hgh.wellFormed.2, ← hgh.plan, ← hgh.dose]
  refine congrArg (Option.map _) ?_
  refine (Job.keeps_work g.params.dose).value_congr (fun j hj => ?_) (Plan.mem_cells_jobOf _ i)
  obtain ⟨hlt, hnear⟩ := distance_le_of_mem_jobOf hgh.wellFormed.1 _ hj hi
  refine getElem?_unlock_eq_iff.mp (hagree j hlt ?_)
  calc g.torus.distance centre j
      ≤ g.torus.distance centre i + g.torus.distance i j := Torus.distance_triangle hc hi hlt
    _ ≤ radius + g.params.maxDist.toNat := Nat.add_le_add hdist hnear

/-! ## Any number of epochs -/

/-- Soups that agree far enough around a cell have the same cell after some epochs. -/
theorem getElem?_advance_eq (hgh : Alike g h) {centre : Nat} (hc : centre < g.torus.area) {k : Nat}
    (hagree : AgreeWithin g h centre (k * g.params.maxDist.toNat))
    (entropy entropy' : Nat → UInt64) :
    (g.advance entropy k).1.cells[centre]? = (h.advance entropy' k).1.cells[centre]? := by
  induction k generalizing g h entropy entropy' with
  | zero => exact getElem?_eq_of_agree hgh.locks (hagree centre hc (by simp))
  | succ k ih =>
    rw [Nat.succ_mul] at hagree
    exact ih (hgh.step (entropy 0) (entropy' 0)) hc (hagree.step hgh hc _ _) _ _

/-- **Influence spreads at most one radius per epoch.**  Take two soups of one shape, radius, dose
and epoch, with the same locks and a fixed shuffle, grown from any seeds.  If they agree on tape and
stream of every cell within `k` times the radius of a cell, then after `k` epochs that cell is one
and the same in both, with its tape, its stream and its lock. -/
theorem exists_cell_of_agreeWithin (hgh : Alike g h) {centre : Nat} (hc : centre < g.torus.area)
    {k : Nat} (hagree : AgreeWithin g h centre (k * g.params.maxDist.toNat))
    (entropy entropy' : Nat → UInt64) :
    ∃ cell, (g.compute entropy k).1.cells[centre]? = some cell ∧
      (h.compute entropy' k).1.cells[centre]? = some cell := by
  have hsize : (g.compute entropy k).1.cells.size = g.torus.area := by
    have hg : (g.compute entropy k).1.WellFormed := hgh.wellFormed.1.advance entropy k
    have hparams : (g.compute entropy k).1.params = g.params := params_advance entropy k g
    rw [hg.size_cells, hparams]
    rfl
  have hcell := Array.getElem?_eq_getElem (hsize ▸ hc)
  refine ⟨_, hcell, ?_⟩
  rw [← hcell]
  exact (getElem?_advance_eq hgh hc hagree entropy entropy').symm

/-! ## A ring of five -/

/-- Five cells in a ring, the third of them with a given tape. -/
def ring (seed : UInt64) (rate : Single) (tape : Tape) : Grid where
  params := { seed, fixedShuffle := true, maxSteps := 64, maxDist := 1, rate
              width := 5, height := 1 }
  epoch := 3
  cells := #[⟨false, Program.replicatorTape, ⟨1⟩⟩, ⟨true, Tape.blank, ⟨2⟩⟩, .fresh ⟨3⟩,
    ⟨false, Tape.blank, ⟨4⟩⟩, ⟨false, Program.replicatorTape, ⟨5⟩⟩].setIfInBounds 2
      ⟨false, tape, ⟨3⟩⟩

/-- What the third cell of a ring holds, and which zero the rate is, does not matter to the first
cell an epoch later. -/
theorem exists_cell_ring :
    let g := ring 1 ⟨0⟩ Tape.blank
    let h := ring 2 ⟨0x80000000⟩ Program.replicatorTape
    Alike g h ∧ 0 < g.torus.area ∧ AgreeWithin g h 0 (1 * g.params.maxDist.toNat) ∧
      g.cells[2]? ≠ h.cells[2]? ∧
      ∃ cell, (g.compute (fun _ => 0) 1).1.cells[0]? = some cell ∧
        (h.compute (fun _ => 9) 1).1.cells[0]? = some cell := by
  intro g h
  have hwell : ∀ (seed : UInt64) (rate : Single) (tape : Tape),
      (ring seed rate tape).params.fault? = none → (ring seed rate tape).WellFormed :=
    fun seed rate tape hvalid => ⟨(Params.fault?_eq_none_iff _).mp hvalid, rfl⟩
  have hgh : Alike g h :=
    { wellFormed := ⟨hwell _ _ _ (by decide), hwell _ _ _ (by decide)⟩
      fixedShuffle := ⟨rfl, rfl⟩
      width := rfl, height := rfl, maxDist := rfl, maxSteps := rfl, epoch := rfl
      rate := by decide
      locks := by simp [locks, g, h, ring] }
  have hagree : AgreeWithin g h 0 (1 * g.params.maxDist.toNat) := by
    intro i _ hdist
    have hne : i ≠ 2 := by
      rintro rfl
      exact absurd hdist (by decide)
    simp only [g, h, ring, Array.getElem?_setIfInBounds_ne hne.symm]
  have hdiffer : g.cells[2]? ≠ h.cells[2]? := by
    intro heq
    have hbyte := congrArg (Option.map fun cell => cell.tape[0]) heq
    simp [g, h, ring, Tape.blank, Program.replicatorTape, Tape.ofBytes] at hbyte
  exact ⟨hgh, by decide, hagree, hdiffer,
    exists_cell_of_agreeWithin hgh (by decide) hagree _ _⟩

end Grid

end TapeLife
