import TapeLife.Proofs.Grid.Batches
import TapeLife.Proofs.Machine.Draws

/-!
# Proofs/Grid/Draws — every random word is accounted for

    cell drives a run        its draws, then 64        a cell drives at most one run an epoch
    cell is a mere partner              just 64        whatever the other's program does

A cell has one job in an epoch, and the run of that job is driven by the cell or by its partner
(`Job.driver`).  The driver's stream gives what the run draws, and every cell's own stream gives
what its mutation draws, so the stream of a cell after an epoch is its stream before it, so many
draws later (`streamAt?_stepWith`).  Over any number of epochs the draws add up
(`streamAt?_compute`).
-/

namespace TapeLife

/-- The draws of some runs, taken together. -/
def drawsOf (runs : List Tally) : Nat := (runs.map (·.randomDraws)).sum

theorem drawsOf_append (first rest : List Tally) :
    drawsOf (first ++ rest) = drawsOf first + drawsOf rest := by
  rw [drawsOf, List.map_append, List.sum_append]
  rfl

namespace Job

/-- The cell whose program drives the run of a job. -/
def driver : Job → Nat
  | .beside pair => pair.initiator
  | .alone i => i

/-- What the run of a job did, if the job has its cells. -/
def tally? (dose : Dose) (soup : Array Cell) : Job → Option Tally
  | .beside pair =>
    match soup[pair.initiator]?, soup[pair.partner]? with
    | some a, some b => some (a.runBeside dose.budget b.tape).2.2
    | _, _ => none
  | .alone i => soup[i]?.map fun cell => (cell.runAlone dose.budget).2

theorem driver_mem_cells (job : Job) : job.driver ∈ job.cells := by
  cases job with
  | beside pair => exact pair.initiator_mem_cells
  | alone i => exact List.mem_singleton_self i

end Job

namespace Cell

theorem stream_liveAlone (dose : Dose) (cell : Cell) :
    (cell.liveAlone dose).1.stream
      = cell.stream.advance ((cell.runAlone dose.budget).2.randomDraws + tapeSize) := by
  simp only [liveAlone, stream_mutate, stream_runAlone, Stream.advance_add]

/-- **The initiator's stream gives what the run draws, and the partner's nothing.** -/
theorem stream_liveBeside (dose : Dose) (a b : Cell) :
    (a.liveBeside dose b).1.1.stream
        = a.stream.advance ((a.runBeside dose.budget b.tape).2.2.randomDraws + tapeSize) ∧
      (a.liveBeside dose b).1.2.stream = b.stream.advance tapeSize := by
  simp only [liveBeside, stream_mutate, stream_runBeside, Stream.advance_add, and_self]

end Cell

namespace Grid

variable {g : Grid} {key : UInt64} {i : Nat}

/-- The random stream of a cell. -/
def streamAt? (g : Grid) (i : Nat) : Option Stream := g.cells[i]?.map (·.stream)

/-- The runs that a cell drives in the epoch of a key: as the initiator of a pair, or alone. -/
def runsOf (g : Grid) (key : UInt64) (i : Nat) : List Tally :=
  (((g.plan key).1.jobs g.cells.size).filter fun job => job.driver = i).filterMap
    (Job.tally? g.params.dose g.cells)

/-! ## One epoch -/

section Epoch

variable (hg : g.WellFormed)
include hg

/-- A cell drives the run of its own job, or none. -/
theorem runsOf_eq (hi : i < g.cells.size) : g.runsOf key i =
    if ((g.plan key).1.jobOf i).driver = i then
      (((g.plan key).1.jobOf i).tally? g.params.dose g.cells).toList
    else [] := by
  have hsame : (fun job : Job => decide (job.driver = i)) =
      fun job => decide (job.driver = i) && decide (i ∈ job.cells) := by
    funext job
    rw [Bool.eq_iff_iff, Bool.and_eq_true, decide_eq_true_iff, decide_eq_true_iff]
    exact ⟨fun h => ⟨h, h ▸ job.driver_mem_cells⟩, And.left⟩
  rw [runsOf, hsame, ← List.filter_filter, Plan.filter_jobs (nodup_members_plan hg key) hi]
  by_cases hdrives : ((g.plan key).1.jobOf i).driver = i
  · rw [if_pos hdrives, List.filter_cons_of_pos (by simpa using hdrives), List.filter_nil,
      List.filterMap_cons, List.filterMap_nil]
    cases ((g.plan key).1.jobOf i).tally? g.params.dose g.cells <;> rfl
  · rw [if_neg hdrives, List.filter_cons_of_neg (by simpa using hdrives)]
    rfl

theorem runsOf_partner {pair : Pair} (hp : pair ∈ (g.plan key).1.formed) :
    g.runsOf key pair.partner = [] := by
  have hnd := nodup_members_plan hg key
  have hlt := lt_size_of_mem_plan hg key (mem_membersOf.mpr ⟨pair, hp, pair.partner_mem_cells⟩)
  rw [runsOf_eq hg hlt, Plan.jobOf_of_mem hnd hp pair.partner_mem_cells]
  exact if_neg (partner_ne_initiator hnd hp).symm

theorem runsOf_initiator {pair : Pair} (hp : pair ∈ (g.plan key).1.formed) {a b : Cell}
    (ha : g.cells[pair.initiator]? = some a) (hb : g.cells[pair.partner]? = some b) :
    g.runsOf key pair.initiator = [(a.runBeside g.params.dose.budget b.tape).2.2] := by
  have hlt := lt_size_of_mem_plan hg key (mem_membersOf.mpr ⟨pair, hp, pair.initiator_mem_cells⟩)
  rw [runsOf_eq hg hlt, Plan.jobOf_of_mem (nodup_members_plan hg key) hp pair.initiator_mem_cells,
    Job.driver, if_pos rfl, Job.tally?, ha, hb]
  rfl

theorem runsOf_alone (hno : i ∉ membersOf (g.plan key).1.formed) {cell : Cell}
    (hcell : g.cells[i]? = some cell) :
    g.runsOf key i = [(cell.runAlone g.params.dose.budget).2] := by
  have hlt := (Array.getElem?_eq_some_iff.mp hcell).1
  rw [runsOf_eq hg hlt, Plan.jobOf_of_notMem hno, Job.driver, if_pos rfl, Job.tally?, hcell]
  rfl

/-- **A partner gives one word for every byte of its tape**, whatever the initiator's program
does. -/
theorem streamAt?_partner {pair : Pair} (hp : pair ∈ (g.plan key).1.formed) :
    (g.stepWith key).1.streamAt? pair.partner
      = (g.streamAt? pair.partner).map (Stream.advance tapeSize) := by
  obtain ⟨a, b, -, hb, -, hb'⟩ := cells_of_mem_plan hg hp
  rw [streamAt?, streamAt?, hb, hb', Option.map_some, Option.map_some, Cell.stream_unlock,
    (Cell.stream_liveBeside g.params.dose a b).2, Option.map_some]

/-- **A cell's stream in an epoch**: it gives what the runs of the cell draw, and one word for every
byte of its tape. -/
theorem streamAt?_stepWith (key : UInt64) (i : Nat) :
    (g.stepWith key).1.streamAt? i
      = (g.streamAt? i).map (Stream.advance (drawsOf (g.runsOf key i) + tapeSize)) := by
  obtain ⟨pair, hp, rfl⟩ | ⟨pair, hp, rfl⟩ | hno := membersOf_cases (g.plan key).1.formed i
  · obtain ⟨a, b, ha, hb, ha', -⟩ := cells_of_mem_plan hg hp
    rw [streamAt?, streamAt?, ha, ha', runsOf_initiator hg hp ha hb, Option.map_some,
      Option.map_some, Cell.stream_unlock, (Cell.stream_liveBeside g.params.dose a b).1]
    rfl
  · rw [streamAt?_partner hg hp, runsOf_partner hg hp, drawsOf, List.map_nil, List.sum_nil,
      Nat.zero_add]
  · rw [streamAt?, streamAt?, getElem?_stepWith_of_notMem hg hno, Option.map_map, Option.map_map]
    refine Option.map_congr fun cell hcell => ?_
    rw [runsOf_alone hg hno hcell, Function.comp_apply, Cell.stream_unlock, Cell.stream_liveAlone]
    rfl

end Epoch

/-! ## Any number of epochs -/

/-- The runs that a cell drives in some epochs. -/
def runsOver (g : Grid) (entropy : Nat → UInt64) (epochs i : Nat) : List Tally :=
  (List.range epochs).flatMap fun epoch =>
    let soup := (g.compute entropy epoch).1
    soup.runsOf (soup.key (entropy epoch)) i

theorem runsOver_succ (g : Grid) (entropy : Nat → UInt64) (epochs i : Nat) :
    let soup := (g.compute entropy epochs).1
    g.runsOver entropy (epochs + 1) i
      = g.runsOver entropy epochs i ++ soup.runsOf (soup.key (entropy epochs)) i := by
  rw [runsOver, List.range_succ, List.flatMap_append, List.flatMap_singleton]
  rfl

/-- **Every random word is accounted for.**  After `k` epochs the stream of a cell is the stream it
began with after so many draws: one for every byte of its tape in every epoch, and those that were
drawn in the runs it drove itself, as the initiator of a pair or alone.  An epoch in which it was
the partner of a pair adds one for every byte of its tape and nothing else. -/
theorem streamAt?_compute (hg : g.WellFormed) (entropy : Nat → UInt64) (k i : Nat) :
    let soup := fun epoch => (g.compute entropy epoch).1
    (soup k).streamAt? i
        = (g.streamAt? i).map (Stream.advance (64 * k + drawsOf (g.runsOver entropy k i))) ∧
      ∀ epoch, ∀ pair ∈ ((soup epoch).plan ((soup epoch).key (entropy epoch))).1.pairs,
        pair.partner = i →
          (soup (epoch + 1)).streamAt? i = ((soup epoch).streamAt? i).map (Stream.advance 64) := by
  intro soup
  have hsoup : ∀ epoch, (soup epoch).WellFormed := fun epoch => hg.advance entropy epoch
  have hnext : ∀ epoch,
      soup (epoch + 1) = ((soup epoch).stepWith ((soup epoch).key (entropy epoch))).1 :=
    fun epoch => compute_succ entropy epoch g
  refine ⟨?_, ?_⟩
  · induction k with
    | zero => exact Option.map_id'.symm
    | succ k ih =>
      have hsum : ∀ before now : Nat, 64 * k + before + (now + tapeSize)
          = 64 * (k + 1) + (before + now) := fun before now => by
        rw [tapeSize]
        omega
      rw [hnext, streamAt?_stepWith (hsoup k), ih, Option.map_map]
      refine congrArg (fun f => (g.streamAt? i).map f) (funext fun s => ?_)
      rw [Function.comp_apply, ← Stream.advance_add, hsum, runsOver_succ, drawsOf_append]
  · rintro epoch pair hp rfl
    rw [hnext]
    exact streamAt?_partner (hsoup epoch) ((Plan.perm_pairs _).mem_iff.mp hp)

/-- Four cells that all draw: two words and halt; one word and go on; one word and halt, under a
stale lock; one word and stop at a bracket without a partner. -/
def casino : Grid where
  params := { seed := 7, fixedShuffle := false, maxSteps := 9, maxDist := 1, rate := ⟨0⟩
              width := 2, height := 2 }
  epoch := 0xffffffff
  cells := #[⟨false, Tape.ofBytes [0x3f, 0x3f, 0x21], ⟨1⟩⟩, ⟨false, Tape.ofBytes [0x3f], ⟨2⟩⟩,
    ⟨true, Tape.ofBytes [0x3f, 0x21], ⟨3⟩⟩, ⟨false, Tape.ofBytes [0x3f, 0x5d], ⟨4⟩⟩]

/-- In three epochs every cell of this soup drives a run, and the last one is a partner twice. -/
theorem streamAt?_compute_casino :
    let entropy := fun epoch => UInt64.ofNat (7 * epoch)
    casino.WellFormed ∧
      (List.range 4).map (fun i => drawsOf (casino.runsOver entropy 3 i)) = [4, 3, 3, 1] ∧
      (casino.compute entropy 3).1.streamAt? 3 = some (Stream.advance 193 ⟨4⟩) := by
  intro entropy
  have hwell : casino.WellFormed := ⟨(Params.fault?_eq_none_iff _).mp (by decide), rfl⟩
  have hdraws : drawsOf (casino.runsOver entropy 3 3) = 1 := by decide +kernel
  refine ⟨hwell, by decide +kernel, ?_⟩
  rw [(streamAt?_compute hwell entropy 3 3).1, hdraws]
  rfl

end Grid

end TapeLife
