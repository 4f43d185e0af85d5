import TapeLife.Proofs.Program
import TapeLife.Proofs.Session.Start

/-!
# Proofs/Session/Seeds — what a fresh soup holds at each place

    born ──init──▸ tape ──seed──▸ tape ──seed──▸ tape        the last tape stays
      └──── 16 or 0 ──── 16 or 0 ──── 16 or 0 ────▸          the draws add up

Every place sees only the seeds that name it, in their order.  Each of them replaces the tape, and
noise moves the stream on besides (`Program.writeTo_eq`), so the tape is the last seed's and the
stream has given what all of them took (`Settings.sows_sow`).  The check of the settings and the
start of a run accept the same settings, and what comes of them does not depend on the order of
seeds for different places (`Settings.startGrid_sows`).
-/

namespace TapeLife

/-! ## What seeds do to a cell -/

namespace SeedSettings

/-- Whether a seed names a place. -/
def IsAt (x y : Int32) (seed : SeedSettings) : Prop := seed.x = x ∧ seed.y = y

instance (x y : Int32) : DecidablePred (IsAt x y) :=
  fun seed => inferInstanceAs (Decidable (seed.x = x ∧ seed.y = y))

/-- Whether a seed writes noise. -/
def IsNoise (seed : SeedSettings) : Prop := seed.toProgram = .ok .noise

instance : DecidablePred IsNoise :=
  fun seed => inferInstanceAs (Decidable (seed.toProgram = .ok .noise))

variable {seed : SeedSettings} {program : Program}

/-- The words that one seed draws. -/
theorem stream_plantIn (seed : SeedSettings) (cell : Cell) : (seed.plantIn cell).stream
    = cell.stream.advance (if seed.IsNoise then 16 else 0) := by
  rcases hprogram : seed.toProgram with cause | program
  · have hquiet : ¬ seed.IsNoise := fun h => by rw [IsNoise, hprogram] at h; cases h
    rw [plantIn, hprogram, if_neg hquiet]
    rfl
  · have hnoise : seed.IsNoise ↔ program = .noise := by
      rw [IsNoise, hprogram, Except.ok.injEq]
    rw [plantIn_eq hprogram, Program.writeTo_eq]
    cases program <;> simp [hnoise, Program.draws, Cell.unlock]

/-- **The draws of the seeds add up.** -/
theorem stream_sow (seeds : List SeedSettings) (cell : Cell) : (sow seeds cell).stream
    = cell.stream.advance (16 * seeds.countP IsNoise) := by
  induction seeds generalizing cell with
  | nil => rfl
  | cons seed rest ih =>
    rw [sow_cons, ih, stream_plantIn, ← Stream.advance_add, List.countP_cons]
    congr 1
    by_cases h : seed.IsNoise
    · simp only [h, if_true, decide_true]; omega
    · simp only [h, if_false, decide_false, Bool.false_eq_true]; omega

/-- **The last seed's tape stays**, whatever was there before. -/
theorem tape_sow_concat (before : List SeedSettings) (h : seed.toProgram = .ok program)
    (cell : Cell) : (sow (before ++ [seed]) cell).tape
      = program.tapeFrom (cell.stream.advance (16 * before.countP IsNoise)) := by
  rw [sow_append, sow_cons, sow_nil, id, plantIn_eq h, Program.writeTo_eq, ← stream_sow]
  rfl

theorem locked_sow (seeds : List SeedSettings) {cell : Cell} (h : cell.locked = false) :
    (sow seeds cell).locked = false := by
  induction seeds generalizing cell with
  | nil => exact h
  | cons seed rest ih =>
    rw [sow_cons]
    refine ih ?_
    rw [plantIn]
    split
    · rfl
    · exact h

end SeedSettings

namespace Settings

open SeedSettings

variable {s : Settings} {p : Params} {g : Grid} {tree : FileTree} {x y : Int32}
  {seeds : List SeedSettings}

/-- Different places have different cells. -/
theorem filter_seedIndex (hseeds : ∀ seed ∈ seeds, CanPlant p seed)
    (hx : 0 ≤ x.toInt ∧ x.toInt < p.width.toNat) (hy : 0 ≤ y.toInt ∧ y.toInt < p.height.toNat) :
    (seeds.filter fun seed => seedIndex p seed = p.torus.index x.toInt.toNat y.toInt.toNat)
      = seeds.filter (IsAt x y) := by
  refine List.filter_congr fun seed hseed => ?_
  obtain ⟨hcolumn, hrow, -⟩ := hseeds seed hseed
  refine decide_eq_decide.mpr ⟨fun h => ?_, ?_⟩
  · have hwidth : seed.x.toInt.toNat < p.torus.width := by
      change seed.x.toInt.toNat < p.width.toNat; omega
    have hwidth' : x.toInt.toNat < p.torus.width := by
      change x.toInt.toNat < p.width.toNat; omega
    obtain ⟨hsameColumn, hsameRow⟩ := Torus.index_inj hwidth hwidth' h
    exact ⟨Int32.toInt_inj.mp (by omega), Int32.toInt_inj.mp (by omega)⟩
  · rintro ⟨rfl, rfl⟩
    rfl

/-! ## The soup of a fresh start -/

/-- **A fresh start succeeds for valid parameters and seeds that can be planted**, and this is the
soup that comes of it. -/
theorem startGrid_eq_ok (hresume : s.checkpoint.resumeFrom = "") : (s.startGrid tree).2 = .ok g ↔
    s.world.Valid ∧ (∀ seed ∈ s.seeds, CanPlant s.world seed) ∧ g.params = s.world ∧ g.epoch = 0 ∧
      ∀ i : Nat, g.cells[i]? = (Grid.grow s.world s.run.init).cells[i]?.map
        (sow (s.seeds.filter fun seed => seedIndex s.world seed = i)) := by
  by_cases hvalid : s.world.Valid
  · rw [startGrid_fresh hvalid hresume]
    exact foldlM_plant_eq_ok.trans (and_iff_right hvalid).symm
  · refine iff_of_false (fun h => ?_) fun h => hvalid h.1
    rw [startGrid] at h
    rcases hcreate : Grid.create s.world with cause | grown
    · rw [hcreate] at h
      cases h
    · exact hvalid (Grid.create_eq_ok.mp hcreate).1

/-- **Seeds for different places may be planted in any order.** -/
theorem startGrid_reorder (hresume : s.checkpoint.resumeFrom = "")
    (h : ∀ x y, seeds.filter (IsAt x y) = s.seeds.filter (IsAt x y))
    (hstart : (s.startGrid tree).2 = .ok g) :
    ({ s with seeds }.startGrid tree).2 = .ok g := by
  obtain ⟨hvalid, hplant, hparams, hepoch, hcells⟩ := (startGrid_eq_ok hresume).mp hstart
  have hmem : ∀ seed, seed ∈ seeds ↔ seed ∈ s.seeds := fun seed => by
    have hsame := congrArg (seed ∈ ·) (h seed.x seed.y)
    simpa [IsAt] using hsame
  have hplant' : ∀ seed ∈ seeds, CanPlant s.world seed := fun seed hseed =>
    hplant seed ((hmem seed).mp hseed)
  refine (@startGrid_eq_ok { s with seeds } g tree hresume).mpr
    ⟨hvalid, hplant', hparams, hepoch, fun i => ?_⟩
  refine (hcells i).trans (congrArg (fun seen => Option.map (sow seen) _) ?_)
  -- either no seed names the cell, or one does and then the others do if they name its place
  by_cases hnamed : ∃ seed ∈ s.seeds, seedIndex s.world seed = i
  · obtain ⟨seed, hseed, rfl⟩ := hnamed
    obtain ⟨hcolumn, hrow, -⟩ := hplant seed hseed
    exact (filter_seedIndex hplant hcolumn hrow).trans <|
      (h seed.x seed.y).symm.trans (filter_seedIndex hplant' hcolumn hrow).symm
  · have hnone : ∀ seed ∈ s.seeds, ¬ decide (seedIndex s.world seed = i) = true :=
      fun seed hseed hi => hnamed ⟨seed, hseed, of_decide_eq_true hi⟩
    rw [List.filter_eq_nil_iff.mpr hnone]
    exact (List.filter_eq_nil_iff.mpr fun seed hseed =>
      hnone seed ((hmem seed).mp hseed)).symm

/-! ## What every place holds -/

/-- The stream that a place is born with. -/
def bornAt (s : Settings) (x y : Int32) : Stream :=
  .ofPlace s.world.seed x.toUInt32 y.toUInt32

/-- The words that the stream of a place has given when the given seeds are planted: those of its
first tape, and sixteen for each seed of noise that names the place. -/
def drawnAt (s : Settings) (x y : Int32) (seeds : List SeedSettings) : Nat :=
  s.run.init.program.draws + 16 * seeds.countP fun seed => IsAt x y seed ∧ IsNoise seed

/-- What the cell of a place is when a run begins. -/
structure Sows (s : Settings) (x y : Int32) (cell : Cell) : Prop where
  unlocked : cell.locked = false
  stream : cell.stream = (s.bornAt x y).advance (s.drawnAt x y s.seeds)
  /-- A place that no seed names keeps its first tape. -/
  unnamed : (∀ seed ∈ s.seeds, ¬ IsAt x y seed) →
    cell.tape = s.run.init.program.tapeFrom (s.bornAt x y)
  /-- The last seed that names a place writes its tape, with what the stream gives after all that
  was drawn before. -/
  named : ∀ before last rest, s.seeds = before ++ last :: rest → IsAt x y last →
    (∀ seed ∈ rest, ¬ IsAt x y seed) → ∃ program, last.toProgram = .ok program ∧
      cell.tape = program.tapeFrom ((s.bornAt x y).advance (s.drawnAt x y before))

theorem newCell_eq_born {t : Torus} (hx : 0 ≤ x.toInt ∧ x.toInt < t.width) (hy : 0 ≤ y.toInt)
    (fill : Fill) : Grid.newCell t s.world.seed fill (t.index x.toInt.toNat y.toInt.toNat)
      = fill.program.writeTo (Cell.fresh (s.bornAt x y)) := by
  have hword : ∀ z : Int32, 0 ≤ z.toInt → UInt32.ofNat z.toInt.toNat = z.toUInt32 := fun z hz => by
    rw [← Int32.toUInt32_ofNat']
    exact congrArg _ (Int32.ofNat_toNatClampNeg z (Int32.le_iff_toInt_le.mpr hz))
  have hwidth : x.toInt.toNat < t.width := by omega
  rw [Grid.newCell_eq, Torus.column_index hwidth, Torus.row_index hwidth, hword x hx.1, hword y hy]
  rfl

/-- **The seeds that name a place decide what is there.** -/
theorem sows_sow (hseeds : ∀ seed ∈ s.seeds, CanPlant s.world seed) :
    s.Sows x y (sow (s.seeds.filter (IsAt x y))
      (s.run.init.program.writeTo (Cell.fresh (s.bornAt x y)))) := by
  have hdrawn : ∀ seeds : List SeedSettings,
      s.run.init.program.draws + 16 * (seeds.filter (IsAt x y)).countP IsNoise
        = s.drawnAt x y seeds := fun seeds => by
    rw [drawnAt, List.countP_filter]
    simp only [Bool.decide_and, Bool.and_comm]
  constructor
  case unlocked => exact locked_sow _ (by rw [Program.writeTo_eq]; rfl)
  case stream =>
    rw [stream_sow, Program.writeTo_eq, ← Stream.advance_add, hdrawn]
    rfl
  case unnamed =>
    intro hnone
    rw [List.filter_eq_nil_iff.mpr (by simpa using hnone), sow_nil, id, Program.writeTo_eq]
    rfl
  case named =>
    intro before last rest hsplit hlast hrest
    obtain ⟨program, hprogram⟩ := (hseeds last (by simp [hsplit])).program
    have hnone : rest.filter (IsAt x y) = [] :=
      List.filter_eq_nil_iff.mpr (by simpa using hrest)
    have hfilter : s.seeds.filter (IsAt x y) = before.filter (IsAt x y) ++ [last] := by
      rw [hsplit, List.filter_append, List.filter_cons_of_pos (by simpa using hlast), hnone]
    refine ⟨program, hprogram, ?_⟩
    rw [hfilter, tape_sow_concat _ hprogram, Program.writeTo_eq, ← Stream.advance_add, hdrawn]
    rfl

/-- Every place of a fresh soup holds what its seeds say. -/
theorem exists_sows (hresume : s.checkpoint.resumeFrom = "") (h : (s.startGrid tree).2 = .ok g)
    (hx : 0 ≤ x.toInt ∧ x.toInt < s.world.width.toNat)
    (hy : 0 ≤ y.toInt ∧ y.toInt < s.world.height.toNat) :
    ∃ cell, g.get x y = .ok cell ∧ s.Sows x y cell := by
  obtain ⟨hvalid, hplant, hparams, -, hcells⟩ := (startGrid_eq_ok hresume).mp h
  have hindex : s.world.torus.index x.toInt.toNat y.toInt.toNat < s.world.cellCount :=
    Torus.index_lt_area (by change x.toInt.toNat < s.world.width.toNat; omega)
      (by change y.toInt.toNat < s.world.height.toNat; omega)
  have hcell := hcells (s.world.torus.index x.toInt.toNat y.toInt.toNat)
  rw [filter_seedIndex hplant hx hy, Grid.grow, Array.getElem?_ofFn, dif_pos hindex,
    Option.map_some, newCell_eq_born hx hy.1] at hcell
  refine ⟨_, ?_, sows_sow hplant⟩
  have hplace : g.place? x y = .ok (s.world.torus.index x.toInt.toNat y.toInt.toNat) := by
    rw [Grid.place?, Grid.torus, hparams]
    exact if_pos ⟨hx.1, hx.2, hy.1, hy.2⟩
  simp only [Grid.get, hplace, bind, Except.bind, hcell]

/-- **The check and the start of a run agree.**  Settings with a speed, nothing to resume, and a
path and an interval where those are needed pass the check exactly if a run can begin with them.
Then every place holds the tape of the last seed that names it, or its first tape if none does;
noise takes the next sixteen words of the place's own stream, after those of the first tape and of
earlier noise there; and seeds for different places may come in any order. -/
theorem startGrid_sows (hspeed : s.run.speed ≠ 0) (hresume : s.checkpoint.resumeFrom = "")
    (hcheckpoint : s.checkpoint.enabled = true → s.checkpoint.path ≠ "")
    (hmetrics : s.metrics.enabled = true → s.metrics.interval ≠ 0) (tree : FileTree) :
    ((∃ warnings, s.check = .ok warnings) ↔ ∃ g, (s.startGrid tree).2 = .ok g) ∧
      ∀ g, (s.startGrid tree).2 = .ok g →
        g.WellFormed ∧ g.params = s.world ∧ g.epoch = 0 ∧
        (∀ x y : Int32, 0 ≤ x.toInt ∧ x.toInt < s.world.width.toNat →
          0 ≤ y.toInt ∧ y.toInt < s.world.height.toNat →
            ∃ cell, g.get x y = .ok cell ∧ s.Sows x y cell) ∧
        ∀ seeds : List SeedSettings,
          (∀ x y, seeds.filter (IsAt x y) = s.seeds.filter (IsAt x y)) →
            ({ s with seeds }.startGrid tree).2 = .ok g := by
  constructor
  · rw [check_succeeds_iff]
    constructor
    · rintro ⟨hvalid, -, hplant, -⟩
      obtain ⟨g, hfresh, -⟩ := exists_freshGrid hvalid hplant
      exact ⟨g, (startGrid_fresh hvalid hresume).trans hfresh⟩
    · rintro ⟨g, hstart⟩
      obtain ⟨hvalid, hplant, -⟩ := (startGrid_eq_ok hresume).mp hstart
      exact ⟨hvalid, hspeed, hplant, hcheckpoint, hmetrics⟩
  · intro g hstart
    obtain ⟨hvalid, hplant, hparams, hepoch, -⟩ := (startGrid_eq_ok hresume).mp hstart
    obtain ⟨g', hfresh, hwell, -⟩ := exists_freshGrid hvalid hplant
    obtain rfl : g' = g := Except.ok.inj <| by
      rw [← hstart, startGrid_fresh hvalid hresume, hfresh]
    exact ⟨hwell, hparams, hepoch, fun x y hx hy => exists_sows hresume hstart hx hy,
      fun seeds h => startGrid_reorder hresume h hstart⟩

/-- Two places of a small random soup with two seeds each, in turns: noise twice, and a text over
the replicator. -/
def garden : Settings :=
  { Settings.standard with
    world := { Params.standard with width := 3, height := 2 }
    seeds := [⟨1, 0, 2, ""⟩, ⟨2, 1, 1, ""⟩, ⟨1, 0, 2, ""⟩, ⟨2, 1, 0, "+."⟩] }

/-- The second noise takes what the stream gives after the first noise and the first tape; the text
stays, and that place's own stream has given its first tape only. -/
theorem startGrid_sows_garden :
    (garden.run.speed ≠ 0 ∧ garden.checkpoint.resumeFrom = "" ∧
      (garden.checkpoint.enabled = true → garden.checkpoint.path ≠ "") ∧
      (garden.metrics.enabled = true → garden.metrics.interval ≠ 0)) ∧
    (∃ warnings, garden.check = .ok warnings) ∧
    ∃ g noisy texted, (garden.startGrid FileTree.empty).2 = .ok g ∧
      (g.get 1 0 = .ok noisy ∧ noisy.stream = (garden.bornAt 1 0).advance 48 ∧
        noisy.tape = Program.noise.tapeFrom ((garden.bornAt 1 0).advance 32)) ∧
      (g.get 2 1 = .ok texted ∧ texted.stream = (garden.bornAt 2 1).advance 16 ∧
        texted.tape = Tape.ofText "+.") := by
  have hcheck : ∃ warnings, garden.check = .ok warnings := ⟨[.windowSpansGrid 30 3 2], by
    decide +kernel⟩
  obtain ⟨hiff, hsows⟩ := startGrid_sows (s := garden) (by decide) rfl nofun nofun FileTree.empty
  obtain ⟨g, hstart⟩ := hiff.mp hcheck
  obtain ⟨-, -, -, hplaces, -⟩ := hsows g hstart
  obtain ⟨noisy, hnoisy, hnoise⟩ := hplaces 1 0 (by decide) (by decide)
  obtain ⟨texted, htexted, htext⟩ := hplaces 2 1 (by decide) (by decide)
  obtain ⟨_, ⟨⟩, hnoiseTape⟩ := hnoise.named [⟨1, 0, 2, ""⟩, ⟨2, 1, 1, ""⟩] ⟨1, 0, 2, ""⟩ _ rfl
    (by decide) (by decide)
  obtain ⟨_, ⟨⟩, htextTape⟩ := htext.named [⟨1, 0, 2, ""⟩, ⟨2, 1, 1, ""⟩, ⟨1, 0, 2, ""⟩] _ [] rfl
    (by decide) (by decide)
  exact ⟨⟨by decide, rfl, nofun, nofun⟩, hcheck, g, noisy, texted, hstart,
    ⟨hnoisy, hnoise.stream, hnoiseTape⟩, htexted, htext.stream, htextTape⟩

end Settings

end TapeLife
