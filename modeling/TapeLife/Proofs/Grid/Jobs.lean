import TapeLife.Grid.Jobs
import TapeLife.Proofs.Footprint
import TapeLife.Proofs.Grid.Matching
import TapeLife.Proofs.Grid.Totals

/-!
# Proofs/Grid/Jobs — jobs work on their own cells

A job reads and writes the cells of its pair, or its single cell (`Job.keeps_work`), and what it
does is the same with and without locks.  The jobs that a plan leaves are disjoint and cover every
cell once (`Plan.pairwise_jobs`, `Plan.jobOf_mem_jobs`), so after all of them every cell holds what
its own job makes of the cells at the start (`Job.getElem?_foldl_perform`).
-/

namespace TapeLife

namespace Job

variable (dose : Dose)

/-! ## What one job does -/

/-- The cells that a job works on. -/
def cells : Job → List Nat
  | .beside pair => pair.cells
  | .alone i => [i]

/-- What a job makes of one of its cells. -/
def outcome (soup : Array Cell) : Job → Nat → Option Cell
  | .beside pair, i =>
    match Grid.runPair dose soup pair with
    | some ((a, b), _) => some (if i = pair.partner then b else a)
    | none => soup[i]?
  | .alone _, i => soup[i]?.map fun cell => (cell.liveAlone dose).1

/-- What the run of a job did, if the job has its cells. -/
def did (soup : Array Cell) : Job → Option Totals
  | .beside pair => (Grid.runPair dose soup pair).map (·.2)
  | .alone i => soup[i]?.map fun cell => (cell.liveAlone dose).2

/-- The run of a job itself, counted. -/
def tick : Job → Totals
  | .beside _ => { interactions := 1 }
  | .alone _ => { soloRuns := 1 }

/-- What a job adds to the counts. -/
def counts (soup : Array Cell) (job : Job) : Totals := (job.did dose soup).elim 0 (· + job.tick)

/-- The cells after a job. -/
def work (soup : Array Cell) (job : Job) : Array Cell := (perform dose (soup, 0) job).1

theorem perform_eq (soup : Array Cell) (totals : Totals) (job : Job) :
    perform dose (soup, totals) job = (job.work dose soup, totals + job.counts dose soup) := by
  cases job with
  | beside pair =>
    simp only [work, perform, counts, did, tick, Grid.runPair]
    cases soup[pair.initiator]? <;> cases soup[pair.partner]? <;> simp [add_assoc]
  | alone i =>
    simp only [work, perform, counts, did, tick]
    cases soup[i]? <;> simp [add_assoc]

/-- What a pair does depends on the cells of the pair alone. -/
theorem runPair_congr {soup soup' : Array Cell} {pair : Pair}
    (h : ∀ j ∈ pair.cells, soup[j]? = soup'[j]?) :
    Grid.runPair dose soup pair = Grid.runPair dose soup' pair := by
  rw [Grid.runPair, Grid.runPair, h _ pair.initiator_mem_cells, h _ pair.partner_mem_cells]

/-- **A job works on its own cells.** -/
theorem keeps_work : Keeps (work dose) cells (outcome dose) where
  getElem? soup job i := by
    cases job with
    | beside pair =>
      simp only [work, perform, cells, outcome, Grid.runPair, Pair.mem_cells]
      rcases ha : soup[pair.initiator]? with _ | a
      · simp
      rcases hb : soup[pair.partner]? with _ | b
      · simp
      have hia := (Array.getElem?_eq_some_iff.mp ha).1
      have hib := (Array.getElem?_eq_some_iff.mp hb).1
      simp only [Array.getElem?_setIfInBounds, Array.size_setIfInBounds, hia, hib]
      grind
    | alone j =>
      simp only [work, perform, cells, outcome, List.mem_singleton]
      rcases hj : soup[j]? with _ | cell
      · by_cases hij : i = j
        · simp [hij, hj]
        · simp [hij]
      have hjs := (Array.getElem?_eq_some_iff.mp hj).1
      simp only [Array.getElem?_setIfInBounds, hjs]
      by_cases hij : i = j
      · simp [hij, hj]
      · simp [hij, Ne.symm hij]
  value_congr := by
    intro soup soup' job i h hi
    cases job with
    | beside pair =>
      simp only [outcome, runPair_congr dose h, h i hi]
    | alone j => simp only [outcome, h i hi]

theorem counts_congr {soup soup' : Array Cell} {job : Job}
    (h : ∀ j ∈ job.cells, soup[j]? = soup'[j]?) : job.counts dose soup = job.counts dose soup' := by
  cases job with
  | beside pair => simp only [counts, did, runPair_congr dose h]
  | alone j => simp only [counts, did, h j (List.mem_singleton_self j)]

/-! ## Jobs one after another -/

variable {jobs : List Job} (hd : jobs.Pairwise fun j k => j.cells.Disjoint k.cells)

theorem fst_foldl_perform (jobs : List Job) (soup : Array Cell) (totals : Totals) :
    (jobs.foldl (perform dose) (soup, totals)).1 = jobs.foldl (work dose) soup := by
  induction jobs generalizing soup totals with
  | nil => rfl
  | cons job jobs ih => rw [List.foldl_cons, List.foldl_cons, perform_eq, ih]

include hd

/-- **After disjoint jobs a cell holds what its own job makes of the cells at the start.** -/
theorem getElem?_foldl_perform {job : Job} (hjob : job ∈ jobs) {i : Nat} (hi : i ∈ job.cells)
    (soup : Array Cell) (totals : Totals) :
    (jobs.foldl (perform dose) (soup, totals)).1[i]? = job.outcome dose soup i := by
  rw [fst_foldl_perform]
  exact (keeps_work dose).getElem?_foldl hd hjob hi soup

/-- **Disjoint jobs add up what each of them counts on the cells at the start.** -/
theorem snd_foldl_perform (soup : Array Cell) (totals : Totals) :
    (jobs.foldl (perform dose) (soup, totals)).2
      = totals + (jobs.map (counts dose soup)).sum := by
  induction jobs generalizing soup totals with
  | nil => simp
  | cons job jobs ih =>
    obtain ⟨hjob, hd⟩ := List.pairwise_cons.mp hd
    have hsame : jobs.map (counts dose (job.work dose soup)) = jobs.map (counts dose soup) := by
      refine List.map_congr_left fun other hother => counts_congr dose fun j hj => ?_
      rw [(keeps_work dose).getElem?, if_neg fun h => hjob other hother h hj]
    rw [List.foldl_cons, perform_eq, ih hd, hsame, List.map_cons, List.sum_cons, add_assoc]

/-- Of disjoint jobs one has a given cell. -/
theorem filter_eq_singleton {job : Job} (hjob : job ∈ jobs) {i : Nat} (hi : i ∈ job.cells) :
    jobs.filter (fun j => decide (i ∈ j.cells)) = [job] := by
  induction jobs with
  | nil => cases hjob
  | cons first rest ih =>
    obtain ⟨hfirst, hrest⟩ := List.pairwise_cons.mp hd
    obtain rfl | hjob := List.mem_cons.mp hjob
    · have hnone : rest.filter (fun j => decide (i ∈ j.cells)) = [] :=
        List.filter_eq_nil_iff.mpr fun other hother h =>
          hfirst other hother hi (of_decide_eq_true h)
      rw [List.filter_cons_of_pos (by simpa using hi), hnone]
    · have hno : ¬ i ∈ first.cells := fun h => hfirst job hjob h hi
      rw [List.filter_cons_of_neg (by simpa using hno), ih hrest hjob]

end Job

/-! ## The jobs of a plan -/

namespace Plan

variable {plan : Plan}

/-- The job that a cell is in. -/
def jobOf (plan : Plan) (i : Nat) : Job :=
  match plan.formed.find? fun pair => decide (i ∈ pair.cells) with
  | some pair => .beside pair
  | none => .alone i

/-- A cell is in a pair and its job is that pair, or it is in no pair and alone. -/
theorem jobOf_cases (plan : Plan) (i : Nat) :
    (∃ pair ∈ plan.formed, i ∈ pair.cells ∧ plan.jobOf i = .beside pair) ∨
      i ∉ membersOf plan.formed ∧ plan.jobOf i = .alone i := by
  rcases hfind : plan.formed.find? fun pair => decide (i ∈ pair.cells) with _ | pair
  · refine .inr ⟨fun hi => ?_, by rw [jobOf, hfind]⟩
    obtain ⟨pair, hp, hip⟩ := mem_membersOf.mp hi
    exact List.find?_eq_none.mp hfind pair hp (decide_eq_true hip)
  · refine .inl ⟨pair, List.mem_of_find?_eq_some hfind, ?_, by rw [jobOf, hfind]⟩
    simpa using List.find?_some hfind

theorem jobOf_of_notMem {i : Nat} (h : i ∉ membersOf plan.formed) : plan.jobOf i = .alone i := by
  rcases plan.jobOf_cases i with ⟨pair, hp, hi, -⟩ | ⟨-, heq⟩
  · exact absurd (mem_membersOf.mpr ⟨pair, hp, hi⟩) h
  · exact heq

theorem jobOf_of_mem (hnd : (membersOf plan.formed).Nodup) {pair : Pair} (hp : pair ∈ plan.formed)
    {i : Nat} (hi : i ∈ pair.cells) : plan.jobOf i = .beside pair := by
  rcases plan.jobOf_cases i with ⟨found, hfound, hif, heq⟩ | ⟨hno, -⟩
  · rw [heq, eq_of_mem_cells hnd hfound hp hif hi]
  · exact absurd (mem_membersOf.mpr ⟨pair, hp, hi⟩) hno

/-- Every cell is in its job. -/
theorem mem_cells_jobOf (plan : Plan) (i : Nat) : i ∈ (plan.jobOf i).cells := by
  rcases plan.jobOf_cases i with ⟨pair, -, hi, heq⟩ | ⟨-, heq⟩ <;> rw [heq]
  · exact hi
  · exact List.mem_singleton_self i

theorem mem_jobs_beside {n : Nat} {pair : Pair} :
    .beside pair ∈ plan.jobs n ↔ pair ∈ plan.formed := by
  simp [jobs]

theorem mem_jobs_alone {n i : Nat} :
    .alone i ∈ plan.jobs n ↔ i < n ∧ i ∉ membersOf plan.formed := by
  simp [jobs, ← hasMember_iff]

/-- **Every cell of the soup has a job.** -/
theorem jobOf_mem_jobs (plan : Plan) {n i : Nat} (hi : i < n) : plan.jobOf i ∈ plan.jobs n := by
  rcases plan.jobOf_cases i with ⟨pair, hp, -, heq⟩ | ⟨hno, heq⟩ <;> rw [heq]
  · exact mem_jobs_beside.mpr hp
  · exact mem_jobs_alone.mpr ⟨hi, hno⟩

/-- **The jobs of a matching share no cell.** -/
theorem pairwise_jobs (hnd : (membersOf plan.formed).Nodup) (n : Nat) :
    (plan.jobs n).Pairwise fun j k => j.cells.Disjoint k.cells := by
  rw [jobs, List.pairwise_append]
  refine ⟨List.pairwise_map.mpr (disjoint_cells hnd), ?_, ?_⟩
  · refine List.pairwise_map.mpr ((List.nodup_range.filter _).imp fun {i j} hij => ?_)
    simpa [Job.cells] using Ne.symm hij
  · intro j hj k hk
    obtain ⟨pair, hp, rfl⟩ := List.mem_map.mp hj
    obtain ⟨i, hi, rfl⟩ := List.mem_map.mp hk
    have hi : i ∉ membersOf plan.formed := by
      simpa [← hasMember_iff] using (List.mem_filter.mp hi).2
    intro a hap hai
    obtain rfl : a = i := List.mem_singleton.mp hai
    exact hi (mem_membersOf.mpr ⟨pair, hp, hap⟩)

/-- **A cell has one job**, and there is no other that it is in. -/
theorem filter_jobs (hnd : (membersOf plan.formed).Nodup) {n i : Nat} (hi : i < n) :
    (plan.jobs n).filter (fun job => decide (i ∈ job.cells)) = [plan.jobOf i] :=
  Job.filter_eq_singleton (pairwise_jobs hnd n) (jobOf_mem_jobs plan hi) (mem_cells_jobOf plan i)

end Plan

/-! ## Locks do not matter to the work -/

namespace Cell

@[simp] theorem unlock_unlock (cell : Cell) : cell.unlock.unlock = cell.unlock := rfl

@[simp] theorem stream_unlock (cell : Cell) : cell.unlock.stream = cell.stream := rfl

@[simp] theorem tape_unlock (cell : Cell) : cell.unlock.tape = cell.tape := rfl

theorem runAlone_unlock (budget : Nat) (cell : Cell) :
    cell.unlock.runAlone budget = ((cell.runAlone budget).1.unlock, (cell.runAlone budget).2) := by
  have h : cell.unlock.machineAlone = cell.machineAlone := rfl
  rw [runAlone, runAlone, h]
  rfl

theorem runBeside_unlock (budget : Nat) (cell : Cell) (tape : Tape) :
    cell.unlock.runBeside budget tape
      = ((cell.runBeside budget tape).1.unlock, (cell.runBeside budget tape).2) := by
  have h : cell.unlock.machineBeside tape = cell.machineBeside tape := rfl
  rw [runBeside, runBeside, h]
  rfl

theorem mutate_unlock (threshold : Nat) (cell : Cell) :
    cell.unlock.mutate threshold = ((cell.mutate threshold).1.unlock, (cell.mutate threshold).2) :=
  rfl

theorem liveAlone_unlock (dose : Dose) (cell : Cell) :
    cell.unlock.liveAlone dose = ((cell.liveAlone dose).1.unlock, (cell.liveAlone dose).2) := by
  simp only [liveAlone, runAlone_unlock, mutate_unlock]

theorem liveBeside_unlock (dose : Dose) (a b : Cell) :
    a.unlock.liveBeside dose b.unlock
      = (((a.liveBeside dose b).1.1.unlock, (a.liveBeside dose b).1.2.unlock),
        (a.liveBeside dose b).2) := by
  have hb : ∀ tape : Tape, { b.unlock with tape } = Cell.unlock { b with tape } := fun _ => rfl
  have ht : b.unlock.tape = b.tape := rfl
  simp only [liveBeside, ht, runBeside_unlock, mutate_unlock, hb]

end Cell

namespace Job

variable (dose : Dose) (soup : Array Cell)

theorem runPair_unlock (pair : Pair) :
    Grid.runPair dose (soup.map Cell.unlock) pair
      = (Grid.runPair dose soup pair).map fun r => ((r.1.1.unlock, r.1.2.unlock), r.2) := by
  simp only [Grid.runPair, Array.getElem?_map]
  cases soup[pair.initiator]? <;> cases soup[pair.partner]? <;> simp [Cell.liveBeside_unlock]

/-- **What a job makes of unlocked cells is what it makes of locked ones, unlocked.** -/
theorem outcome_unlock (job : Job) (i : Nat) :
    job.outcome dose (soup.map Cell.unlock) i = (job.outcome dose soup i).map Cell.unlock := by
  cases job with
  | beside pair =>
    simp only [outcome, runPair_unlock]
    rcases Grid.runPair dose soup pair with _ | ⟨⟨a, b⟩, totals⟩
    · simp
    · simp only [Option.map_some]
      split <;> rfl
  | alone j =>
    simp only [outcome, Array.getElem?_map, Option.map_map, Function.comp_def,
      Cell.liveAlone_unlock]

theorem counts_unlock (job : Job) :
    job.counts dose (soup.map Cell.unlock) = job.counts dose soup := by
  cases job with
  | beside pair =>
    simp only [counts, did, runPair_unlock, Option.map_map, Function.comp_def]
  | alone j =>
    simp only [counts, did, Array.getElem?_map, Option.map_map, Function.comp_def,
      Cell.liveAlone_unlock]

end Job

end TapeLife
