import TapeLife.Proofs.Grid.History
import TapeLife.Proofs.Settings.Check
import TapeLife.Session.Start

/-!
# Proofs/Session/Planting — seeds are planted cell by cell

    seeds, in order ──filter──▸ the seeds of one cell, in order ──sow──▸ cell

A seed is planted exactly if it has a program and a place on the grid, and it changes the one cell
that it names (`plant_eq_ok`).  So a list of seeds is planted exactly if each of them can be, and
what becomes of a cell is up to the seeds that name it (`foldlM_plant_eq_ok`).
-/

namespace TapeLife

namespace SeedSettings

/-- The cell that a seed was written to. -/
def plantIn (seed : SeedSettings) (cell : Cell) : Cell :=
  match seed.toProgram with
  | .ok program => (program.writeTo cell).unlock
  | .error _ => cell

/-- The cell that seeds were written to, one after the other. -/
def sow (seeds : List SeedSettings) (cell : Cell) : Cell :=
  seeds.foldl (fun cell seed => seed.plantIn cell) cell

variable {seed : SeedSettings} {program : Program}

theorem plantIn_eq (h : seed.toProgram = .ok program) (cell : Cell) :
    seed.plantIn cell = (program.writeTo cell).unlock := by
  rw [plantIn, h]

@[simp] theorem sow_nil : sow [] = id := rfl

@[simp] theorem sow_cons (seed : SeedSettings) (rest : List SeedSettings) (cell : Cell) :
    sow (seed :: rest) cell = sow rest (seed.plantIn cell) := rfl

theorem sow_append (first rest : List SeedSettings) (cell : Cell) :
    sow (first ++ rest) cell = sow rest (sow first cell) := List.foldl_append

end SeedSettings

namespace Settings

open SeedSettings

variable {p : Params} {g g' : Grid} {seeds : List SeedSettings}

/-- The number of the cell that a seed names. -/
def seedIndex (p : Params) (seed : SeedSettings) : Nat :=
  p.torus.index seed.x.toInt.toNat seed.y.toInt.toNat

/-- **A seed is planted exactly if it can be**, and changes the one cell that it names. -/
theorem plant_eq_ok {seed : SeedSettings} : plant g seed = .ok g' ↔ CanPlant g.params seed ∧
    g' = { g with cells := g.cells.modify (seedIndex g.params seed) seed.plantIn } := by
  rw [plant]
  rcases hprogram : seed.toProgram with cause | program
  · refine iff_of_false (fun h => ?_) fun h => ?_
    · cases h
    · obtain ⟨program, hok⟩ := h.1.program
      rw [hprogram] at hok
      cases hok
  · rw [funext (plantIn_eq hprogram)]
    refine Grid.set_eq_ok.trans ?_
    rw [Grid.place?]
    split
    · rename_i hin
      have hcan : CanPlant g.params seed :=
        ⟨⟨hin.1, hin.2.1⟩, hin.2.2, program, hprogram⟩
      simp [hcan, seedIndex]
    · rename_i hout
      refine iff_of_false (fun h => ?_) fun h => ?_
      · obtain ⟨_, hplace, -⟩ := h
        cases hplace
      · exact hout ⟨h.1.column.1, h.1.column.2, h.1.row.1, h.1.row.2⟩

/-- **Seeds are planted exactly if every one of them can be**, and each cell sees only the seeds
that name it, in their order. -/
theorem foldlM_plant_eq_ok : seeds.foldlM plant g = .ok g' ↔
    (∀ seed ∈ seeds, CanPlant g.params seed) ∧ g'.params = g.params ∧ g'.epoch = g.epoch ∧
      ∀ i : Nat, g'.cells[i]? = g.cells[i]?.map
        (sow (seeds.filter fun seed => seedIndex g.params seed = i)) := by
  induction seeds generalizing g with
  | nil =>
    constructor
    · intro h
      obtain rfl : g = g' := Except.ok.inj h
      simp
    · rintro ⟨-, hparams, hepoch, hcells⟩
      have hsame : g'.cells = g.cells := Array.ext_getElem? fun i => by simpa using hcells i
      cases g; cases g'
      obtain rfl := hparams
      obtain rfl := hepoch
      obtain rfl := hsame
      rfl
  | cons seed rest ih =>
    rw [List.foldlM_cons, List.forall_mem_cons]
    rcases hplant : plant g seed with cause | next
    · refine iff_of_false (fun h => ?_) fun h => ?_
      · cases h
      · rw [plant_eq_ok.mpr ⟨h.1.1, rfl⟩] at hplant
        cases hplant
    · obtain ⟨hcan, rfl⟩ := plant_eq_ok.mp hplant
      refine ih.trans ?_
      simp only [hcan, true_and]
      -- the first seed is the first one that its own cell sees, and no other cell sees it
      refine and_congr_right fun _ => and_congr_right fun _ => and_congr_right fun _ =>
        forall_congr' fun i => ?_
      rw [Array.getElem?_modify, List.filter_cons]
      by_cases hi : seedIndex g.params seed = i
      · simp only [hi, if_true, decide_true]
        cases g.cells[i]? <;> rfl
      · simp only [hi, if_false, decide_false]
        rfl

/-- **Seeds that can be planted are planted**: parameters and epoch stay what they are. -/
theorem exists_foldlM_plant (hg : g.WellFormed) (h : ∀ seed ∈ seeds, CanPlant g.params seed) :
    ∃ planted : Grid, seeds.foldlM plant g = .ok planted ∧ planted.WellFormed ∧
      planted.params = g.params ∧ planted.epoch = g.epoch := by
  let planted : Grid :=
    { g with
      cells := g.cells.mapIdx fun i =>
        sow (seeds.filter fun seed => seedIndex g.params seed = i) }
  have hsize : planted.cells.size = g.cells.size := Array.size_mapIdx
  have hplanted : seeds.foldlM plant g = .ok planted :=
    foldlM_plant_eq_ok.mpr ⟨h, rfl, rfl, fun i => Array.getElem?_mapIdx⟩
  exact ⟨planted, hplanted, ⟨hg.valid, hsize.trans hg.size_cells⟩, rfl, rfl⟩

end Settings

end TapeLife
