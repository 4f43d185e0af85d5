import TapeLife.Proofs.Grid.Jobs

/-!
# Proofs/Grid/Epoch — an epoch is its jobs, in any order

    snapshot ─┬─ pairs ──▸ outcomes ─┐
              └─ alone, in place ────┴──▸ write back ──▸ release
         =  job ──▸ job ──▸ … ──▸ job ─────────────────▸ release

An epoch runs pairs on a snapshot, everybody else in place, and writes the pairs back at the end.
Because the jobs of a plan are disjoint, every cell ends up with what its own job makes of the cells
at the start (`getElem?_stepWith`), and the counts are the sum of the counts of the jobs
(`totals_stepWith`).  Neither says anything about an order, so any order of the jobs gives the same
(`stepInOrder_eq_stepWith`).
-/

namespace TapeLife

/-! ## One epoch -/

namespace Grid

variable {g : Grid}

/-- The pairs of a plan whose outcomes are written back, with their outcomes. -/
def outcomesOf (dose : Dose) (soup : Array Cell) (pairs : List Pair) :
    List (Pair × (Cell × Cell) × Totals) :=
  pairs.filterMap fun pair => (runPair dose soup pair).map fun outcome => (pair, outcome)

theorem mem_outcomesOf {dose : Dose} {soup : Array Cell} {pairs : List Pair} {pair : Pair}
    {outcome : (Cell × Cell) × Totals} :
    (pair, outcome) ∈ outcomesOf dose soup pairs
      ↔ pair ∈ pairs ∧ runPair dose soup pair = some outcome := by
  simp [outcomesOf]

theorem pairwise_outcomesOf {dose : Dose} {soup : Array Cell} {pairs : List Pair}
    (hnd : (membersOf pairs).Nodup) :
    (outcomesOf dose soup pairs).Pairwise fun o p => o.1.cells.Disjoint p.1.cells := by
  refine List.Pairwise.filterMap _ (fun p q hpq o ho o' ho' => ?_) (disjoint_cells hnd)
  obtain ⟨-, -, rfl⟩ := Option.map_eq_some_iff.mp ho
  obtain ⟨-, -, rfl⟩ := Option.map_eq_some_iff.mp ho'
  exact hpq

/-- A pair of cells of the soup has an outcome. -/
theorem exists_runPair (dose : Dose) {soup : Array Cell} {pair : Pair}
    (h : ∀ i ∈ pair.cells, i < soup.size) : ∃ outcome, runPair dose soup pair = some outcome := by
  have ha := h _ pair.initiator_mem_cells
  have hb := h _ pair.partner_mem_cells
  exact ⟨_, by rw [runPair, Array.getElem?_eq_getElem ha, Array.getElem?_eq_getElem hb]⟩

/-- **Writing back keeps to the cells of the pair.** -/
theorem keeps_writeBack :
    Keeps (fun soup (o : Pair × (Cell × Cell) × Totals) => writeBack soup o.1 o.2.1)
      (fun o => o.1.cells)
      (fun soup o i => soup[i]?.map fun _ =>
        (if i = o.1.partner then o.2.1.2 else o.2.1.1).unlock) where
  getElem? soup o i := by
    simp only [writeBack, Array.getElem?_setIfInBounds, Array.size_setIfInBounds, Pair.mem_cells]
    by_cases hi : i < soup.size
    · grind
    · rw [Array.getElem?_eq_none (Nat.le_of_not_lt hi)]
      grind
  value_congr h hi := by rw [h _ hi]

theorem getElem?_runSolo (dose : Dose) (member : Array Bool) (soup : Array Cell) (i : Nat) :
    (runSolo dose member soup).1[i]? = soup[i]?.map fun cell =>
      if member.getD i false then cell else (cell.liveAlone dose).1 := by
  simp only [runSolo, Array.getElem?_map, Array.getElem?_mapIdx, Option.map_map]
  refine Option.map_congr fun cell _ => ?_
  simp only [Function.comp_apply]
  split <;> rfl

theorem cells_stepWith (g : Grid) (key : UInt64) :
    (g.stepWith key).1.cells =
      ((outcomesOf g.params.dose (g.plan key).2 (g.plan key).1.pairs).foldl
        (fun soup o => writeBack soup o.1 o.2.1)
        (runSolo g.params.dose ((g.plan key).1.membership g.cells.size) (g.plan key).2).1).map
          Cell.unlock := rfl

theorem nodup_members_plan (hg : g.WellFormed) (key : UInt64) :
    (membersOf (g.plan key).1.formed).Nodup := (sound_plan hg key).holding.nodup

theorem lt_size_of_mem_plan (hg : g.WellFormed) (key : UInt64) {i : Nat}
    (hi : i ∈ membersOf (g.plan key).1.formed) : i < g.cells.size := by
  rw [← size_locks]
  exact (sound_plan hg key).holding.lt_size hi

/-- Planning changes nothing but locks. -/
theorem unlock_claimed (hg : g.WellFormed) (key : UInt64) :
    (g.plan key).2.map Cell.unlock = g.cells.map Cell.unlock := by
  refine Array.ext_getElem? fun i => ?_
  rw [Array.getElem?_map, Array.getElem?_map, getElem?_claimed hg, Option.map_map]
  rfl

/-- **After an epoch every cell holds what its own job makes of the unlocked cells before it.** -/
theorem getElem?_stepWith (hg : g.WellFormed) (key : UInt64) (i : Nat) :
    (g.stepWith key).1.cells[i]?
      = ((g.plan key).1.jobOf i).outcome g.params.dose (g.cells.map Cell.unlock) i := by
  rw [← unlock_claimed hg key, Job.outcome_unlock, cells_stepWith, Array.getElem?_map]
  have hperm := (g.plan key).1.perm_pairs
  have hnd := (perm_membersOf hperm).nodup_iff.mpr (nodup_members_plan hg key)
  rcases (g.plan key).1.jobOf_cases i with ⟨pair, hp, hi, hjob⟩ | ⟨hno, hjob⟩ <;> rw [hjob]
  · -- The outcome of the pair is written back, whatever the run in place left there.
    have hlt : ∀ j ∈ pair.cells, j < (g.plan key).2.size := fun j hj => by
      rw [size_claimed]; exact lt_size_of_mem_plan hg key (mem_membersOf.mpr ⟨pair, hp, hj⟩)
    obtain ⟨outcome, hrun⟩ := exists_runPair g.params.dose hlt
    have hmem := mem_outcomesOf.mpr ⟨hperm.mem_iff.mpr hp, hrun⟩
    have hcell := Array.getElem?_eq_getElem (hlt i hi)
    rw [keeps_writeBack.getElem?_foldl (pairwise_outcomesOf hnd) hmem hi, getElem?_runSolo, hcell]
    simp only [Job.outcome, hrun, Option.map_some, Cell.unlock_unlock]
  · have hout : ∀ o ∈ outcomesOf g.params.dose (g.plan key).2 (g.plan key).1.pairs,
        i ∉ o.1.cells := fun o ho hi => hno (mem_membersOf.mpr
          ⟨o.1, hperm.mem_iff.mp (mem_outcomesOf.mp ho).1, hi⟩)
    rw [keeps_writeBack.getElem?_foldl_of_notMem hout, getElem?_runSolo, Option.map_map,
      Job.outcome, Option.map_map]
    refine Option.map_congr fun cell hcell => ?_
    have hlt : i < g.cells.size := by
      rw [← size_claimed g key]; exact (Array.getElem?_eq_some_iff.mp hcell).1
    simp [Array.getD_eq_getD_getElem?, Plan.getElem?_membership _ hlt, hno]

/-- **What becomes of a pair**: both cells hold what the run of the one beside the other leaves of
them, and are released. -/
theorem cells_of_mem_plan (hg : g.WellFormed) {key : UInt64} {pair : Pair}
    (hp : pair ∈ (g.plan key).1.formed) :
    ∃ a b, g.cells[pair.initiator]? = some a ∧ g.cells[pair.partner]? = some b ∧
      (g.stepWith key).1.cells[pair.initiator]? = some (a.liveBeside g.params.dose b).1.1.unlock ∧
      (g.stepWith key).1.cells[pair.partner]? = some (a.liveBeside g.params.dose b).1.2.unlock := by
  have hnd := nodup_members_plan hg key
  have hlt : ∀ j ∈ pair.cells, j < g.cells.size := fun j hj =>
    lt_size_of_mem_plan hg key (mem_membersOf.mpr ⟨pair, hp, hj⟩)
  have ha := Array.getElem?_eq_getElem (hlt _ pair.initiator_mem_cells)
  have hb := Array.getElem?_eq_getElem (hlt _ pair.partner_mem_cells)
  refine ⟨_, _, ha, hb, ?_, ?_⟩
  · rw [getElem?_stepWith hg, Plan.jobOf_of_mem hnd hp pair.initiator_mem_cells,
      Job.outcome_unlock, Job.outcome, runPair, ha, hb]
    simp only [Option.map_some, if_neg (partner_ne_initiator hnd hp).symm]
  · rw [getElem?_stepWith hg, Plan.jobOf_of_mem hnd hp pair.partner_mem_cells,
      Job.outcome_unlock, Job.outcome, runPair, ha, hb]
    simp only [Option.map_some, if_pos]

/-- **What becomes of a cell in no pair**: it lives alone and is released. -/
theorem getElem?_stepWith_of_notMem (hg : g.WellFormed) {key : UInt64} {i : Nat}
    (hno : i ∉ membersOf (g.plan key).1.formed) :
    (g.stepWith key).1.cells[i]?
      = g.cells[i]?.map fun cell => (cell.liveAlone g.params.dose).1.unlock := by
  rw [getElem?_stepWith hg, Plan.jobOf_of_notMem hno, Job.outcome_unlock, Job.outcome,
    Option.map_map]
  rfl

/-! ## Counts of one epoch -/

/-- Reading a list with places is reading the places one after another. -/
private theorem filterMap_mapIdx {α β γ : Type} (f : Nat → α → β) (h : β → Option γ)
    (soup : Array α) :
    (soup.mapIdx f).toList.filterMap h
      = (List.range soup.size).filterMap fun i => soup[i]?.bind fun a => h (f i a) := by
  have hread : (soup.mapIdx f).toList.map some
      = (List.range soup.size).map fun i => soup[i]?.map (f i) := by
    refine List.ext_getElem? fun i => ?_
    by_cases hi : i < soup.size
    · simp [hi]
    · simp [hi]
  calc (soup.mapIdx f).toList.filterMap h
      = ((soup.mapIdx f).toList.map some).filterMap (·.bind h) := by
        rw [List.filterMap_map]; rfl
    _ = (List.range soup.size).filterMap fun i => soup[i]?.bind fun a => h (f i a) := by
        rw [hread, List.filterMap_map]
        refine List.filterMap_congr fun i _ => ?_
        rw [Function.comp_apply, Option.bind_map]
        rfl

/-- What is counted of everybody who is in no pair: the runs of their jobs. -/
theorem snd_runSolo (dose : Dose) (plan : Plan) (soup : Array Cell) :
    (runSolo dose (plan.membership soup.size) soup).2
      = ((List.range soup.size).filter fun i => !plan.hasMember i).filterMap fun i =>
          Job.did dose soup (.alone i) := by
  rw [runSolo, filterMap_mapIdx, List.filterMap_filter]
  refine List.filterMap_congr fun i hi => ?_
  have hi := List.mem_range.mp hi
  have hmember : (plan.membership soup.size).getD i false = plan.hasMember i := by
    rw [Array.getD_eq_getD_getElem?, Plan.getElem?_membership _ hi, Option.getD_some,
      Bool.eq_iff_iff, decide_eq_true_iff, Plan.hasMember_iff]
  rw [hmember, Array.getElem?_eq_getElem hi]
  cases plan.hasMember i <;> simp [Job.did, hi]

/-- Counting the pairs that are written back, and what they did, counts the jobs of pairs. -/
theorem counts_outcomesOf (dose : Dose) (soup : Array Cell) (pairs : List Pair) :
    ({ interactions := (outcomesOf dose soup pairs).length } : Totals)
        + Totals.sum ((outcomesOf dose soup pairs).map (·.2.2))
      = (pairs.map fun pair => Job.counts dose soup (.beside pair)).sum := by
  have hdid : (outcomesOf dose soup pairs).map (·.2.2)
      = pairs.filterMap fun pair => Job.did dose soup (.beside pair) := by
    simp [outcomesOf, List.map_filterMap, Job.did, Function.comp_def]
  rw [Totals.interactions_eq_nsmul, Totals.sum_eq, ← List.length_map (·.2.2), hdid,
    Totals.nsmul_length_add_sum]
  rfl

/-- Counting the runs of everybody who is in no pair, and what they did, counts their jobs. -/
theorem counts_runSolo (dose : Dose) (plan : Plan) (soup : Array Cell) :
    ({ soloRuns := (runSolo dose (plan.membership soup.size) soup).2.length } : Totals)
        + Totals.sum (runSolo dose (plan.membership soup.size) soup).2
      = (((List.range soup.size).filter fun i => !plan.hasMember i).map fun i =>
          Job.counts dose soup (.alone i)).sum := by
  rw [Totals.soloRuns_eq_nsmul, Totals.sum_eq, snd_runSolo dose plan, Totals.nsmul_length_add_sum]
  rfl

/-- **The counts of an epoch are those of its jobs on the unlocked cells before it.** -/
theorem totals_stepWith (hg : g.WellFormed) (key : UInt64) :
    (g.stepWith key).2.totals
      = { epochs := 1, droppedClaims := (g.plan key).1.abandoned.length }
        + (((g.plan key).1.jobs g.cells.size).map
            (Job.counts g.params.dose (g.cells.map Cell.unlock))).sum := by
  have hcounts : Job.counts g.params.dose (g.cells.map Cell.unlock)
      = Job.counts g.params.dose (g.plan key).2 := by
    funext job
    rw [← unlock_claimed hg key, Job.counts_unlock]
  rw [hcounts, ← size_claimed g key, Plan.jobs, List.map_append, List.sum_append, List.map_map,
    List.map_map]
  have hpairs := (counts_outcomesOf g.params.dose (g.plan key).2 (g.plan key).1.pairs).trans
    ((g.plan key).1.perm_pairs.map _).sum_eq
  have hsolo := counts_runSolo g.params.dose (g.plan key).1 (g.plan key).2
  simp only [Function.comp_def]
  rw [← hpairs, ← hsolo, size_claimed]
  refine (congrArg (· + _ + _) (Totals.mk_runs _ _ _ _)).trans ?_
  change _ + Totals.sum ((outcomesOf _ _ _).map _) + Totals.sum (runSolo _ _ _).2 = _
  ac_rfl

/-! ## Any order -/

/-- Jobs of a plan work on cells of the soup. -/
theorem lt_size_of_mem_jobs (hg : g.WellFormed) (key : UInt64) {job : Job}
    (hjob : job ∈ (g.plan key).1.jobs g.cells.size) {i : Nat} (hi : i ∈ job.cells) :
    i < g.cells.size := by
  cases job with
  | beside pair =>
    exact lt_size_of_mem_plan hg key
      (mem_membersOf.mpr ⟨pair, Plan.mem_jobs_beside.mp hjob, hi⟩)
  | alone j =>
    obtain rfl : i = j := List.mem_singleton.mp hi
    exact (Plan.mem_jobs_alone.mp hjob).1

section AnyOrder

-- Cells that differ from those of the soup in locks at most, and the plan's jobs in any order.
variable (hg : g.WellFormed) (key : UInt64) {soup : Array Cell}
  (hsoup : soup.map Cell.unlock = g.cells.map Cell.unlock) {jobs : List Job}
  (hjobs : jobs.Perm ((g.plan key).1.jobs g.cells.size)) (totals : Totals)
include hg hjobs

theorem disjoint_jobs : jobs.Pairwise fun j k => j.cells.Disjoint k.cells :=
  (Plan.pairwise_jobs (nodup_members_plan hg key) _).perm hjobs.symm fun h _ hk hj => h hj hk

/-- A place beyond the soup has neither a job nor, in a plan, a partner. -/
theorem notMem_cells_of_size_le {i : Nat} (hi : g.cells.size ≤ i) :
    (∀ job ∈ jobs, i ∉ job.cells) ∧ i ∉ membersOf (g.plan key).1.formed := by
  constructor
  · intro job hjob hij
    exact Nat.not_lt.mpr hi (lt_size_of_mem_jobs hg key (hjobs.mem_iff.mp hjob) hij)
  · intro hmember
    exact Nat.not_lt.mpr hi (lt_size_of_mem_plan hg key hmember)

include hsoup

/-- **After the jobs, in any order, the cells are those after the epoch**, locks apart. -/
theorem map_unlock_foldl_perform :
    (jobs.foldl (Job.perform g.params.dose) (soup, totals)).1.map Cell.unlock
      = (g.stepWith key).1.cells := by
  refine Array.ext_getElem? fun i => ?_
  rw [Array.getElem?_map, getElem?_stepWith hg, ← hsoup, Job.outcome_unlock]
  by_cases hi : i < g.cells.size
  · have hjob := hjobs.mem_iff.mpr ((g.plan key).1.jobOf_mem_jobs hi)
    rw [Job.getElem?_foldl_perform g.params.dose (disjoint_jobs hg key hjobs) hjob
      (Plan.mem_cells_jobOf _ i)]
  · obtain ⟨hno, hmember⟩ := notMem_cells_of_size_le hg key hjobs (Nat.le_of_not_lt hi)
    have hsize : soup.size = g.cells.size := by simpa using congrArg Array.size hsoup
    have hnone : soup[i]? = none := Array.getElem?_eq_none (by omega)
    rw [Job.fst_foldl_perform, (Job.keeps_work _).getElem?_foldl_of_notMem hno, hnone,
      Plan.jobOf_of_notMem hmember, Job.outcome, hnone]
    rfl

/-- **The jobs, in any order, count what the epoch counts.** -/
theorem snd_foldl_perform_jobs :
    (jobs.foldl (Job.perform g.params.dose)
        (soup, { epochs := 1, droppedClaims := (g.plan key).1.abandoned.length })).2
      = (g.stepWith key).2.totals := by
  have hcounts : Job.counts g.params.dose soup
      = Job.counts g.params.dose (g.cells.map Cell.unlock) := by
    funext job
    rw [← hsoup, Job.counts_unlock]
  rw [Job.snd_foldl_perform g.params.dose (disjoint_jobs hg key hjobs), totals_stepWith hg, hcounts,
    (hjobs.map _).sum_eq]

theorem stepInOrder_of_unlock_eq :
    { g with cells := soup }.stepInOrder (g.plan key).1 jobs
      = ((g.stepWith key).1, (g.stepWith key).2.totals) := by
  rw [← snd_foldl_perform_jobs hg key hsoup hjobs]
  exact congrArg (fun cells => (({ g with epoch := _, cells } : Grid), _))
    (map_unlock_foldl_perform hg key hsoup hjobs _)

end AnyOrder

/-- **Any order of the jobs gives the epoch.**  The jobs work directly on the cells as planning left
them, claims and all, and it would be the same without the claims. -/
theorem stepInOrder_eq_stepWith (hg : g.WellFormed) (key : UInt64) {jobs : List Job}
    (hjobs : jobs.Perm ((g.plan key).1.jobs g.cells.size)) :
    { g with cells := (g.plan key).2 }.stepInOrder (g.plan key).1 jobs
        = ((g.stepWith key).1, (g.stepWith key).2.totals) ∧
      g.stepInOrder (g.plan key).1 jobs = ((g.stepWith key).1, (g.stepWith key).2.totals) :=
  ⟨stepInOrder_of_unlock_eq hg key (unlock_claimed hg key) hjobs,
    stepInOrder_of_unlock_eq hg key rfl hjobs⟩

/-- A soup with one pair, one cell alone and one stale lock, its three jobs done last one first. -/
theorem stepInOrder_square_reverse :
    square.WellFormed ∧
      ((square.plan 0).1.jobs 4).reverse = [.alone 2, .alone 1, .beside ⟨0, 3⟩] ∧
      ((square.plan 0).1.jobs 4).reverse.Perm ((square.plan 0).1.jobs square.cells.size) ∧
      { square with cells := (square.plan 0).2 }.stepInOrder (square.plan 0).1
          ((square.plan 0).1.jobs 4).reverse
        = ((square.stepWith 0).1, (square.stepWith 0).2.totals) :=
  ⟨wellFormed_square, by cbv, List.reverse_perm _,
    (stepInOrder_eq_stepWith wellFormed_square 0 (List.reverse_perm _)).1⟩

end Grid

end TapeLife
