import Mathlib.Algebra.Order.BigOperators.Group.List
import TapeLife.Proofs.Grid.Batches
import TapeLife.Proofs.Machine.Tallies

/-!
# Proofs/Grid/Counts — every cell is run and counted once in an epoch

    job beside a partner       two cells, one run, two mutations
    job alone                  one cell, one run, one mutation

The jobs of a plan cover every cell once (`Plan.perm_cells_jobs`), and each of them counts the run
and the mutations of its own cells (`Job.ofRuns_counts`).  Such counts add up: over the jobs of an
epoch to every cell once (`Grid.account_stepWith`), and over the epochs of a batch to every cell
once for each of them (`Grid.account_snd_compute`).
-/

namespace TapeLife

/-! ## Mutations -/

/-- So many replacements in so many bytes: none without a chance, and all of them with all
chances. -/
structure Replaces (threshold bytes count : Nat) : Prop where
  le : count ≤ bytes
  eq_of_scale : threshold = mutationScale → count = bytes
  eq_zero : threshold = 0 → count = 0

theorem replaces_zero (threshold : Nat) : Replaces threshold 0 0 :=
  ⟨Nat.le_refl 0, fun _ => rfl, fun _ => rfl⟩

theorem Replaces.add {threshold bytes count bytes' count' : Nat}
    (h : Replaces threshold bytes count) (h' : Replaces threshold bytes' count') :
    Replaces threshold (bytes + bytes') (count + count') where
  le := Nat.add_le_add h.le h'.le
  eq_of_scale hscale := by rw [h.eq_of_scale hscale, h'.eq_of_scale hscale]
  eq_zero hzero := by rw [h.eq_zero hzero, h'.eq_zero hzero]

theorem Cell.replaces_mutate (threshold : Nat) (cell : Cell) :
    Replaces threshold tapeSize (cell.mutate threshold).2 := by
  have hbytes : cell.tape.toList.length = tapeSize := Vector.length_toList
  refine ⟨(count_mutate_le ..).trans_eq hbytes, ?_, ?_⟩
  · rintro rfl
    exact (count_mutate_scale ..).trans hbytes
  · rintro rfl
    exact count_mutate_zero ..

/-! ## Counts of runs -/

namespace Totals

variable {dose : Dose} {a b t : Totals} {tally : Tally} {mutations : Nat}

/-- Counts of runs under a dose, each with the mutations of its cells after it. -/
structure OfRuns (dose : Dose) (t : Totals) : Prop where
  halted_le : t.halted ≤ t.interactions + t.soloRuns
  steps_le : t.steps ≤ (t.interactions + t.soloRuns) * dose.budget
  ops_le : t.ops ≤ t.steps
  channelWrites_le : t.channelWrites ≤ t.ops
  channelWrites_eq_zero : t.interactions = 0 → t.channelWrites = 0
  replaces : Replaces dose.threshold (tapeSize * (2 * t.interactions + t.soloRuns)) t.mutations

/-- Counts without a run: epochs and dropped claims. -/
theorem ofRuns_of_no_run (dose : Dose) (epochs droppedClaims : Nat) :
    OfRuns dose { epochs, droppedClaims } where
  halted_le := Nat.le_refl 0
  steps_le := Nat.zero_le _
  ops_le := Nat.le_refl 0
  channelWrites_le := Nat.le_refl 0
  channelWrites_eq_zero _ := rfl
  replaces := replaces_zero _

/-- **Counts of runs add up.** -/
theorem OfRuns.add (ha : OfRuns dose a) (hb : OfRuns dose b) : OfRuns dose (a + b) where
  halted_le := (Nat.add_le_add ha.halted_le hb.halted_le).trans_eq (Nat.add_add_add_comm ..)
  steps_le := by
    refine (Nat.add_le_add ha.steps_le hb.steps_le).trans_eq ?_
    rw [← Nat.add_mul, Nat.add_add_add_comm]
    rfl
  ops_le := Nat.add_le_add ha.ops_le hb.ops_le
  channelWrites_le := Nat.add_le_add ha.channelWrites_le hb.channelWrites_le
  channelWrites_eq_zero h := by
    obtain ⟨ha₀, hb₀⟩ := Nat.add_eq_zero_iff.mp h
    exact Nat.add_eq_zero_iff.mpr ⟨ha.channelWrites_eq_zero ha₀, hb.channelWrites_eq_zero hb₀⟩
  replaces := by
    have hcells : tapeSize * (2 * a.interactions + a.soloRuns)
        + tapeSize * (2 * b.interactions + b.soloRuns)
        = tapeSize * (2 * (a.interactions + b.interactions) + (a.soloRuns + b.soloRuns)) := by
      rw [← Nat.mul_add, Nat.mul_add 2, Nat.add_add_add_comm]
    exact hcells ▸ ha.replaces.add hb.replaces

theorem OfRuns.sum {all : List Totals} (h : ∀ t ∈ all, OfRuns dose t) : OfRuns dose all.sum := by
  induction all with
  | nil => exact ofRuns_of_no_run dose 0 0
  | cons t all ih =>
    obtain ⟨ht, hall⟩ := List.forall_mem_cons.mp h
    exact ht.add (ih hall)

/-- One run beside a partner, and the mutations of two cells. -/
theorem ofRuns_beside (htally : tally.Bounded dose.budget)
    (hmutations : Replaces dose.threshold (tapeSize + tapeSize) mutations) :
    OfRuns dose (ofRun tally mutations + { interactions := 1 }) where
  halted_le := Bool.toNat_le tally.halted
  steps_le := htally.steps_le.trans_eq (Nat.one_mul _).symm
  ops_le := Nat.le.intro htally.ops_add_skipped
  channelWrites_le := (Nat.le_add_right ..).trans htally.channelWrites_add_randomDraws_le
  channelWrites_eq_zero h := absurd h Nat.one_ne_zero
  replaces := hmutations

/-- One run alone, and the mutations of one cell. -/
theorem ofRuns_alone (htally : tally.Bounded dose.budget) (hwrites : tally.channelWrites = 0)
    (hmutations : Replaces dose.threshold tapeSize mutations) :
    OfRuns dose (ofRun tally mutations + { soloRuns := 1 }) where
  halted_le := Bool.toNat_le tally.halted
  steps_le := htally.steps_le.trans_eq (Nat.one_mul _).symm
  ops_le := Nat.le.intro htally.ops_add_skipped
  channelWrites_le := (Nat.le_add_right ..).trans htally.channelWrites_add_randomDraws_le
  channelWrites_eq_zero _ := hwrites
  replaces := hmutations

/-! Some counts add up on their own. -/

/-- The epochs. -/
@[simps]
def epochsHom : Totals →+ Nat where
  toFun t := t.epochs
  map_zero' := rfl
  map_add' _ _ := rfl

/-- The runs beside a partner. -/
@[simps]
def interactionsHom : Totals →+ Nat where
  toFun t := t.interactions
  map_zero' := rfl
  map_add' _ _ := rfl

/-- The cells that were run: two for every run beside a partner, and one for every run alone. -/
@[simps]
def cellsHom : Totals →+ Nat where
  toFun t := 2 * t.interactions + t.soloRuns
  map_zero' := rfl
  map_add' a b := by
    change 2 * (a.interactions + b.interactions) + (a.soloRuns + b.soloRuns) = _
    rw [Nat.mul_add, Nat.add_add_add_comm]

/-- The candidates that could not be claimed. -/
@[simps]
def droppedClaimsHom : Totals →+ Nat where
  toFun t := t.droppedClaims
  map_zero' := rfl
  map_add' _ _ := rfl

end Totals

/-! ## Jobs -/

/-- **The jobs of a plan cover every cell once.** -/
theorem Plan.perm_cells_jobs {plan : Plan} {n : Nat} (hnd : (membersOf plan.formed).Nodup)
    (hlt : ∀ i ∈ membersOf plan.formed, i < n) :
    ((plan.jobs n).flatMap Job.cells).Perm (List.range n) := by
  have hcells : ∀ job ∈ plan.jobs n, job.cells.Nodup := by
    rintro (pair | i) hjob
    · exact (List.nodup_flatMap.mp hnd).1 pair (Plan.mem_jobs_beside.mp hjob)
    · exact List.nodup_singleton i
  refine (List.perm_ext_iff_of_nodup (List.nodup_flatMap.mpr ⟨hcells, pairwise_jobs hnd n⟩)
    List.nodup_range).mpr fun i => ?_
  rw [List.mem_flatMap, List.mem_range]
  constructor
  · rintro ⟨pair | j, hjob, hi⟩
    · exact hlt i (mem_membersOf.mpr ⟨pair, Plan.mem_jobs_beside.mp hjob, hi⟩)
    · obtain rfl : i = j := List.mem_singleton.mp hi
      exact (Plan.mem_jobs_alone.mp hjob).1
  · exact fun hi => ⟨plan.jobOf i, jobOf_mem_jobs plan hi, mem_cells_jobOf plan i⟩

namespace Cell

/-- **A cell alone counts one run**, and the mutations of its tape. -/
theorem ofRuns_liveAlone (dose : Dose) (cell : Cell) :
    ((cell.liveAlone dose).2 + { soloRuns := 1 }).OfRuns dose := by
  simp only [liveAlone]
  exact Totals.ofRuns_alone (cell.bounded_runAlone _) (cell.channelWrites_runAlone _)
    (replaces_mutate ..)

/-- **A cell beside its partner counts one run**, and the mutations of both tapes. -/
theorem ofRuns_liveBeside (dose : Dose) (cell partner : Cell) :
    ((cell.liveBeside dose partner).2 + { interactions := 1 }).OfRuns dose := by
  simp only [liveBeside]
  exact Totals.ofRuns_beside (cell.bounded_runBeside _ _)
    ((replaces_mutate ..).add (replaces_mutate ..))

end Cell

namespace Job

variable {dose : Dose} {soup : Array Cell} {job : Job}

/-- A pair that has its cells counts the run of the one beside the other. -/
theorem exists_counts_beside {pair : Pair} (h : ∀ i ∈ (beside pair).cells, i < soup.size) :
    ∃ cell partner : Cell, (beside pair).counts dose soup
      = (cell.liveBeside dose partner).2 + { interactions := 1 } := by
  have ha := h _ pair.initiator_mem_cells
  have hb := h _ pair.partner_mem_cells
  refine ⟨soup[pair.initiator], soup[pair.partner], ?_⟩
  simp only [counts, did, Grid.runPair, Array.getElem?_eq_getElem ha, Array.getElem?_eq_getElem hb,
    Option.map_some, Option.elim_some]
  rfl

/-- A cell on its own counts its run alone. -/
theorem exists_counts_alone {i : Nat} (h : ∀ j ∈ (alone i).cells, j < soup.size) :
    ∃ cell : Cell, (alone i).counts dose soup
      = (cell.liveAlone dose).2 + { soloRuns := 1 } := by
  have hi := h i (List.mem_singleton_self i)
  refine ⟨soup[i], ?_⟩
  simp only [counts, did, Array.getElem?_eq_getElem hi, Option.map_some, Option.elim_some]
  rfl

/-- **A job that has its cells counts one run**, with the mutations of its cells. -/
theorem ofRuns_counts (h : ∀ i ∈ job.cells, i < soup.size) :
    (job.counts dose soup).OfRuns dose := by
  cases job with
  | beside pair =>
    obtain ⟨cell, partner, hcounts⟩ := exists_counts_beside h
    exact hcounts ▸ cell.ofRuns_liveBeside dose partner
  | alone i =>
    obtain ⟨cell, hcounts⟩ := exists_counts_alone h
    exact hcounts ▸ cell.ofRuns_liveAlone dose

/-- A job that has its cells counts those cells, neither an epoch nor a dropped claim, and a run
beside a partner if it has two. -/
theorem hom_counts (h : ∀ i ∈ job.cells, i < soup.size) :
    Totals.epochsHom (job.counts dose soup) = 0 ∧
      Totals.interactionsHom (job.counts dose soup) = job.cells.length - 1 ∧
      Totals.cellsHom (job.counts dose soup) = job.cells.length ∧
      Totals.droppedClaimsHom (job.counts dose soup) = 0 := by
  cases job with
  | beside pair =>
    obtain ⟨cell, partner, hcounts⟩ := exists_counts_beside h
    rw [hcounts]
    exact ⟨rfl, rfl, rfl, rfl⟩
  | alone i =>
    obtain ⟨cell, hcounts⟩ := exists_counts_alone h
    rw [hcounts]
    exact ⟨rfl, rfl, rfl, rfl⟩

end Job

/-! ## Epochs -/

/-- What is promised of the counts of some epochs of a soup of `n` cells: every cell was in one run
in every epoch, alone or beside another, and every byte had its chance to be replaced. -/
structure Totals.Account (p : Params) (n epochs : Nat) (t : Totals) : Prop where
  epochs_eq : t.epochs = epochs
  /-- A run beside a partner is a run of two cells. -/
  cells_eq : 2 * t.interactions + t.soloRuns = epochs * n
  interactions_le : t.interactions ≤ epochs * max 1 (n / 4)
  interactions_eq_zero : p.maxDist = 0 ∨ n < 2 → t.interactions = 0
  halted_le : t.halted ≤ t.interactions + t.soloRuns
  channelWrites_le : t.channelWrites ≤ t.ops
  ops_le : t.ops ≤ t.steps
  steps_le : t.steps ≤ (t.interactions + t.soloRuns) * p.maxSteps.toNat
  channelWrites_eq_zero : t.interactions = 0 → t.channelWrites = 0
  mutations_le : t.mutations ≤ 64 * n * epochs
  mutations_eq : mutationThreshold p.rate = 2 ^ 24 → t.mutations = 64 * n * epochs
  mutations_eq_zero : mutationThreshold p.rate = 0 → t.mutations = 0
  droppedClaims_le : t.droppedClaims ≤ 4 * n * epochs

/-- Counts that fit the words they are kept in: four bytes for the epochs, and eight for any
other. -/
structure Totals.Fits (t : Totals) : Prop where
  epochs_lt : t.epochs < 2 ^ 32
  runs_lt : t.interactions + t.soloRuns < 2 ^ 64
  halted_lt : t.halted < 2 ^ 64
  steps_lt : t.steps < 2 ^ 64
  ops_lt : t.ops < 2 ^ 64
  channelWrites_lt : t.channelWrites < 2 ^ 64
  mutations_lt : t.mutations < 2 ^ 64
  droppedClaims_lt : t.droppedClaims < 2 ^ 64

namespace Totals.Account

variable {p : Params} {n epochs epochs' : Nat} {a b t : Totals}

/-- Counts of runs are an account if they are of the right number of runs. -/
theorem ofRuns (h : t.OfRuns p.dose) (hepochs : t.epochs = epochs)
    (hcells : 2 * t.interactions + t.soloRuns = epochs * n)
    (hpairs : t.interactions ≤ epochs * max 1 (n / 4))
    (hnone : p.maxDist = 0 ∨ n < 2 → t.interactions = 0)
    (hdropped : t.droppedClaims ≤ 4 * n * epochs) : t.Account p n epochs := by
  have hbytes : tapeSize * (2 * t.interactions + t.soloRuns) = 64 * n * epochs := by
    rw [hcells, Nat.mul_comm epochs, Nat.mul_assoc]
  have hreplaces := hbytes ▸ h.replaces
  exact
    { epochs_eq := hepochs
      cells_eq := hcells
      interactions_le := hpairs
      interactions_eq_zero := hnone
      halted_le := h.halted_le
      channelWrites_le := h.channelWrites_le
      ops_le := h.ops_le
      steps_le := h.steps_le
      channelWrites_eq_zero := h.channelWrites_eq_zero
      mutations_le := hreplaces.le
      mutations_eq := hreplaces.eq_of_scale
      mutations_eq_zero := hreplaces.eq_zero
      droppedClaims_le := hdropped }

theorem toOfRuns (h : t.Account p n epochs) : t.OfRuns p.dose where
  halted_le := h.halted_le
  steps_le := h.steps_le
  ops_le := h.ops_le
  channelWrites_le := h.channelWrites_le
  channelWrites_eq_zero := h.channelWrites_eq_zero
  replaces := by
    have hbytes : tapeSize * (2 * t.interactions + t.soloRuns) = 64 * n * epochs := by
      rw [h.cells_eq, Nat.mul_comm epochs, Nat.mul_assoc]
    exact hbytes ▸ ⟨h.mutations_le, h.mutations_eq, h.mutations_eq_zero⟩

/-- **Accounts of epochs add up.** -/
theorem add (ha : a.Account p n epochs) (hb : b.Account p n epochs') :
    (a + b).Account p n (epochs + epochs') := by
  refine .ofRuns (ha.toOfRuns.add hb.toOfRuns) ?_ ?_ ?_ (fun h => ?_) ?_
  · exact congrArg₂ _ ha.epochs_eq hb.epochs_eq
  · rw [Nat.add_mul, ← ha.cells_eq, ← hb.cells_eq]
    exact cellsHom.map_add a b
  · rw [Nat.add_mul]
    exact Nat.add_le_add ha.interactions_le hb.interactions_le
  · exact Nat.add_eq_zero_iff.mpr ⟨ha.interactions_eq_zero h, hb.interactions_eq_zero h⟩
  · rw [Nat.mul_add]
    exact Nat.add_le_add ha.droppedClaims_le hb.droppedClaims_le

/-- **No count exceeds its word** if the epochs, the bytes and the steps that there can be do
not. -/
theorem fits (h : t.Account p n epochs) (hepochs : epochs < 2 ^ 32)
    (hbytes : 64 * n * epochs < 2 ^ 64) (hsteps : epochs * n * p.maxSteps.toNat < 2 ^ 64) :
    t.Fits := by
  have hruns : t.interactions + t.soloRuns ≤ epochs * n := by
    have hcells := h.cells_eq
    omega
  have hsteps' : t.steps < 2 ^ 64 :=
    (h.steps_le.trans (Nat.mul_le_mul_right _ hruns)).trans_lt hsteps
  have hlives : epochs * n < 2 ^ 64 := by
    rw [Nat.mul_comm]
    rw [Nat.mul_assoc] at hbytes
    omega
  have hdropped : t.droppedClaims < 2 ^ 64 := by
    have hle := h.droppedClaims_le
    rw [Nat.mul_assoc] at hle hbytes
    omega
  exact
    { epochs_lt := h.epochs_eq.trans_lt hepochs
      runs_lt := hruns.trans_lt hlives
      halted_lt := (h.halted_le.trans hruns).trans_lt hlives
      steps_lt := hsteps'
      ops_lt := h.ops_le.trans_lt hsteps'
      channelWrites_lt := (h.channelWrites_le.trans h.ops_le).trans_lt hsteps'
      mutations_lt := h.mutations_le.trans_lt hbytes
      droppedClaims_lt := hdropped }

end Totals.Account

namespace Grid

variable {g : Grid}

/-- Jobs of an epoch have their cells. -/
theorem lt_size_unlocked_of_mem_jobs (hg : g.WellFormed) (key : UInt64) {job : Job}
    (hjob : job ∈ (g.plan key).1.jobs g.cells.size) :
    ∀ i ∈ job.cells, i < (g.cells.map Cell.unlock).size := fun i hi => by
  rw [Array.size_map]
  exact lt_size_of_mem_jobs hg key hjob hi

/-- **What adds up of the counts of an epoch** is what its jobs count of it, and what the plan
does. -/
theorem hom_totals_stepWith (hg : g.WellFormed) (key : UInt64) (f : Totals →+ Nat)
    {value : Job → Nat} (h : ∀ {job : Job}, (∀ i ∈ job.cells, i < (g.cells.map Cell.unlock).size) →
      f (job.counts g.params.dose (g.cells.map Cell.unlock)) = value job) :
    f (g.stepWith key).2.totals
      = f { epochs := 1, droppedClaims := (g.plan key).1.abandoned.length }
        + (((g.plan key).1.jobs g.cells.size).map value).sum := by
  rw [totals_stepWith hg key, map_add, map_list_sum, List.map_map]
  refine congrArg (_ + List.sum ·) (List.map_congr_left fun job hjob => ?_)
  exact h (lt_size_unlocked_of_mem_jobs hg key hjob)

theorem interactions_stepWith (hg : g.WellFormed) (key : UInt64) :
    (g.stepWith key).2.totals.interactions = (g.plan key).1.formed.length := by
  refine (hom_totals_stepWith hg key Totals.interactionsHom
    fun h => (Job.hom_counts h).2.1).trans ?_
  rw [Plan.jobs, List.map_append, List.map_map, List.map_map, List.sum_append]
  simp [Function.comp_def, Job.cells, Pair.cells]

/-- **An epoch runs and counts every cell once**, whatever its key is. -/
theorem account_stepWith (hg : g.WellFormed) (key : UInt64) :
    (g.stepWith key).2.totals.Account g.params g.cells.size 1 := by
  have hplan := (sound_plan hg key).length_le
  have hruns : (g.stepWith key).2.totals.OfRuns g.params.dose := by
    rw [totals_stepWith hg key]
    refine (Totals.ofRuns_of_no_run ..).add (.sum ?_)
    simp only [List.forall_mem_map]
    exact fun job hjob => Job.ofRuns_counts (lt_size_unlocked_of_mem_jobs hg key hjob)
  refine .ofRuns hruns ?_ ?_ ?_ (fun h => ?_) ?_
  · refine (hom_totals_stepWith hg key Totals.epochsHom fun h => (Job.hom_counts h).1).trans ?_
    simp
  · refine (hom_totals_stepWith hg key Totals.cellsHom fun h => (Job.hom_counts h).2.2.1).trans ?_
    rw [← List.length_flatMap, (Plan.perm_cells_jobs (nodup_members_plan hg key)
      fun i hi => lt_size_of_mem_plan hg key hi).length_eq, List.length_range]
    simp
  · rw [interactions_stepWith hg, Nat.one_mul, Nat.max_comm, ← size_locks]
    exact hplan
  · have hnone : g.params.maxDist.toNat = 0 ∨ g.locks.size < 2 := by
      rw [size_locks]
      exact h.imp_left fun hdist => by rw [hdist]; rfl
    rw [interactions_stepWith hg, List.length_eq_zero_iff]
    exact Plan.formed_make_eq_nil hnone key
  · refine (hom_totals_stepWith hg key Totals.droppedClaimsHom
      fun h => (Job.hom_counts h).2.2.2).trans_le ?_
    have hdropped := Plan.length_abandoned_make_le g.torus g.params.maxDist.toNat key g.locks
    rw [size_locks] at hdropped
    simpa [Grid.plan] using hdropped

/-- The counts of one epoch more. -/
theorem snd_compute_succ (entropy : Nat → UInt64) (k : Nat) (g : Grid) :
    let soup := (g.compute entropy k).1
    (g.compute entropy (k + 1)).2
      = (g.compute entropy k).2 + (soup.step (entropy k)).2.totals := by
  rw [compute_add]
  exact congrArg (_ + ·) (Totals.sum_eq _ |>.trans List.sum_singleton)

/-- **The counts of some epochs are an account** of the cells, once for every epoch. -/
theorem account_snd_compute (hg : g.WellFormed) (entropy : Nat → UInt64) (speed : Nat) :
    (g.compute entropy speed).2.Account g.params g.cells.size speed := by
  induction speed with
  | zero =>
    have hnone := Totals.ofRuns_of_no_run g.params.dose 0 0
    exact .ofRuns hnone rfl (Nat.zero_mul _).symm (Nat.zero_le _) (fun _ => rfl) (Nat.zero_le _)
  | succ speed ih =>
    have hsoup : (g.compute entropy speed).1.WellFormed := hg.advance entropy speed
    have hparams : (g.compute entropy speed).1.params = g.params := params_advance entropy speed g
    have hsize : (g.compute entropy speed).1.cells.size = g.cells.size := by
      rw [hsoup.size_cells, hg.size_cells, hparams]
    have hnext := account_stepWith hsoup ((g.compute entropy speed).1.key (entropy speed))
    rw [hparams, hsize] at hnext
    rw [snd_compute_succ]
    exact ih.add hnext

/-- **Every cell is run and counted once in an epoch.**  Take a well-formed soup with any locks and
any programs, and any number of epochs with any entropy.  Their counts are an account of all its
cells, once for every epoch; and so are the counts of one epoch, whatever its key is.  No count
exceeds its word if the epochs, the bytes and the steps that there can be do not. -/
theorem account_compute (hg : g.WellFormed) (entropy : Nat → UInt64) (speed : Nat) :
    (g.compute entropy speed).2.Account g.params g.cells.size speed ∧
      (∀ key, (g.stepWith key).2.totals.Account g.params g.cells.size 1) ∧
      (speed < 2 ^ 32 → 64 * g.cells.size * speed < 2 ^ 64 →
        speed * g.cells.size * g.params.maxSteps.toNat < 2 ^ 64 →
          (g.compute entropy speed).2.Fits) :=
  have hall := account_snd_compute hg entropy speed
  ⟨hall, account_stepWith hg, hall.fits⟩

/-- A small soup with a stale lock, at a rate that replaces every byte: three epochs are twelve
lives of cells, and seven hundred and sixty-eight bytes. -/
theorem account_compute_storm :
    let storm : Grid := { square with params := { square.params with rate := ⟨0x3f800000⟩ } }
    let t := (storm.compute (fun _ => 0) 3).2
    storm.WellFormed ∧ mutationThreshold storm.params.rate = 2 ^ 24 ∧ t.epochs = 3 ∧
      2 * t.interactions + t.soloRuns = 12 ∧ t.interactions ≤ 3 ∧ t.mutations = 768 ∧
      (storm.stepWith 5).2.totals.droppedClaims ≤ 16 ∧ t.Fits := by
  intro storm t
  have hwell : storm.WellFormed := ⟨(Params.fault?_eq_none_iff _).mp (by decide), rfl⟩
  have hscale : mutationThreshold storm.params.rate = 2 ^ 24 := by decide
  obtain ⟨hall, hone, hfits⟩ := account_compute hwell (fun _ => 0) 3
  exact ⟨hwell, hscale, hall.epochs_eq, hall.cells_eq, hall.interactions_le.trans_eq (by decide),
    hall.mutations_eq hscale, (hone 5).droppedClaims_le,
    hfits (by decide) (by decide) (by decide)⟩

end Grid

end TapeLife
