import TapeLife.Proofs.Grid.History
import TapeLife.Proofs.Program

/-!
# Proofs/Grid/Storage — the cells of a soup are a store

    (x, y) ──place?──▸ cell number          one-to-one on the grid, nothing beside it
    set (x, y) program, get (x, y)    =  what the program leaves behind on the cell
    set (x, y) program, get (x', y')  =  get (x', y')

Coordinates on the grid have a cell of their own (`place?_inj`), and a write changes that one cell
and nothing else (`apply_set_cases`).  So a soup is read and written like a store: what was written
is read back, other places keep what they have, and writes to different places may change their
turns (`storage_laws`).
-/

namespace TapeLife

namespace Grid

variable {g : Grid} {x y x' y' : Int32} {i : Nat} {program : Program}

/-! ## Places -/

/-- Whether there is a cell at coordinates.  Pairing goes around the edges, but writing does not. -/
def OnGrid (g : Grid) (x y : Int32) : Prop :=
  (0 ≤ x.toInt ∧ x.toInt < g.params.width.toNat) ∧ 0 ≤ y.toInt ∧ y.toInt < g.params.height.toNat

theorem place?_of_onGrid (h : g.OnGrid x y) :
    g.place? x y = .ok (g.torus.index x.toInt.toNat y.toInt.toNat) :=
  if_pos ⟨h.1.1, h.1.2, h.2⟩

theorem place?_of_not_onGrid (h : ¬ g.OnGrid x y) :
    g.place? x y = .error (.outOfBounds x y g.params.width g.params.height) :=
  if_neg fun hin => h ⟨⟨hin.1, hin.2.1⟩, hin.2.2⟩

/-- **The places on the grid have cells, row by row**, and no others have. -/
theorem place?_eq_ok : g.place? x y = .ok i ↔
    g.OnGrid x y ∧ i = g.torus.index x.toInt.toNat y.toInt.toNat := by
  by_cases h : g.OnGrid x y
  · rw [place?_of_onGrid h, Except.ok.injEq, eq_comm]
    exact (and_iff_right h).symm
  · rw [place?_of_not_onGrid h]
    exact iff_of_false (by simp) fun hin => h hin.1

/-- **Different places have different cells.** -/
theorem place?_inj (h : g.place? x y = .ok i) (h' : g.place? x' y' = .ok i) : x = x' ∧ y = y' := by
  obtain ⟨⟨⟨hx, hxw⟩, hy, -⟩, rfl⟩ := place?_eq_ok.mp h
  obtain ⟨⟨⟨hx', hxw'⟩, hy', -⟩, hsame⟩ := place?_eq_ok.mp h'
  have hwidth : x.toInt.toNat < g.torus.width := by
    change x.toInt.toNat < g.params.width.toNat; omega
  have hwidth' : x'.toInt.toNat < g.torus.width := by
    change x'.toInt.toNat < g.params.width.toNat; omega
  obtain ⟨hcolumn, hrow⟩ := Torus.index_inj hwidth hwidth' hsame
  exact ⟨Int32.toInt_inj.mp (by omega), Int32.toInt_inj.mp (by omega)⟩

theorem get_eq_ok {cell : Cell} :
    g.get x y = .ok cell ↔ ∃ i, g.place? x y = .ok i ∧ g.cells[i]? = some cell := by
  rw [get]
  rcases g.place? x y with cause | i
  · simp [bind, Except.bind]
  · rcases hcell : g.cells[i]? with _ | cell <;> simp [bind, Except.bind, hcell]

/-! ## Writes -/

/-- The soup with a program written onto the cell of a number. -/
def overwrite (g : Grid) (i : Nat) (program : Program) : Grid :=
  { g with cells := g.cells.modify i fun cell => (program.writeTo cell).unlock }

theorem apply_set_of_ok (h : g.place? x y = .ok i) (program : Program) :
    g.apply (.set x y program) = (g.overwrite i program, none) := by
  rw [apply, set_eq_ok.mpr ⟨i, h, rfl⟩]
  rfl

theorem apply_set_of_error {cause : SoupError} (h : g.place? x y = .error cause)
    (program : Program) : g.apply (.set x y program) = (g, some cause) := by
  rw [apply, set, h]
  rfl

@[simp] theorem place?_overwrite (g : Grid) (i : Nat) (program : Program) (x y : Int32) :
    (g.overwrite i program).place? x y = g.place? x y := rfl

theorem getElem?_overwrite (g : Grid) (i j : Nat) (program : Program) :
    (g.overwrite i program).cells[j]?
      = if i = j then g.cells[j]?.map fun cell => (program.writeTo cell).unlock
        else g.cells[j]? := Array.getElem?_modify

/-- **Writes onto different cells commute.** -/
theorem overwrite_comm (g : Grid) {i j : Nat} (hij : i ≠ j) (program other : Program) :
    (g.overwrite i program).overwrite j other = (g.overwrite j other).overwrite i program := by
  have hcells : ((g.overwrite i program).overwrite j other).cells
      = ((g.overwrite j other).overwrite i program).cells := by
    refine Array.ext_getElem? fun k => ?_
    simp only [getElem?_overwrite]
    -- the cell is at most one of the two
    by_cases hi : i = k
    · have hj : j ≠ k := fun hj => hij (hi.trans hj.symm)
      simp [hi, hj]
    · simp [hi]
  exact congrArg (fun cells => ({ g with cells } : Grid)) hcells

/-- **What was written is read back.** -/
theorem get_overwrite_self {old : Cell} (hplace : g.place? x y = .ok i)
    (hold : g.cells[i]? = some old) :
    (g.overwrite i program).get x y = .ok (program.writeTo old).unlock := by
  refine get_eq_ok.mpr ⟨i, hplace, ?_⟩
  rw [getElem?_overwrite, if_pos rfl, hold, Option.map_some]

/-- **Other places keep what they have.** -/
theorem get_overwrite_of_ne (hplace : g.place? x y = .ok i) (hne : ¬ (x' = x ∧ y' = y))
    (program : Program) : (g.overwrite i program).get x' y' = g.get x' y' := by
  rw [get, get, place?_overwrite]
  rcases hplace' : g.place? x' y' with cause | j
  · rfl
  · have hij : i ≠ j := fun h => hne (place?_inj hplace' (h ▸ hplace))
    simp only [bind, Except.bind, getElem?_overwrite, if_neg hij]
    rfl

/-- The built-in programs are numbered from zero to two. -/
theorem builtIn?_eq_none {id : Int32} (h0 : id ≠ 0) (h1 : id ≠ 1) (h2 : id ≠ 2) :
    Program.builtIn? id = none := by
  rw [Program.builtIn?, if_neg h0, if_neg h1, if_neg h2]

/-- **Writes to different places commute**, and neither makes the other fail or succeed. -/
theorem apply_set_comm (g : Grid) (hne : ¬ (x' = x ∧ y' = y)) (program other : Program) :
    let first := g.apply (.set x y program)
    let second := g.apply (.set x' y' other)
    (first.1.apply (.set x' y' other)) = ((second.1.apply (.set x y program)).1, second.2) ∧
      (second.1.apply (.set x y program)).2 = first.2 := by
  rcases hplace : g.place? x y with cause | i <;>
    rcases hplace' : g.place? x' y' with cause' | j
  · simp [apply_set_of_error hplace, apply_set_of_error hplace']
  · have hlater : (g.overwrite j other).place? x y = .error cause := hplace
    simp [apply_set_of_error hplace, apply_set_of_ok hplace', apply_set_of_error hlater]
  · have hlater : (g.overwrite i program).place? x' y' = .error cause' := hplace'
    simp [apply_set_of_ok hplace, apply_set_of_error hplace', apply_set_of_error hlater]
  · have hij : i ≠ j := fun h => hne (place?_inj hplace' (h ▸ hplace))
    have hlater : (g.overwrite j other).place? x y = .ok i := hplace
    have hlater' : (g.overwrite i program).place? x' y' = .ok j := hplace'
    simp [apply_set_of_ok hplace, apply_set_of_ok hplace', apply_set_of_ok hlater,
      apply_set_of_ok hlater', overwrite_comm g hij]

/-- **A write succeeds at the places on the grid**, and elsewhere nothing happens. -/
theorem apply_set_cases (g : Grid) (x y : Int32) (program : Program) :
    (g.OnGrid x y ∧ ∃ i, g.place? x y = .ok i ∧
        g.apply (.set x y program) = (g.overwrite i program, none)) ∨
      ¬ g.OnGrid x y ∧
        g.apply (.set x y program)
          = (g, some (.outOfBounds x y g.params.width g.params.height)) := by
  by_cases h : g.OnGrid x y
  · exact .inl ⟨h, _, place?_of_onGrid h, apply_set_of_ok (place?_of_onGrid h) program⟩
  · exact .inr ⟨h, apply_set_of_error (place?_of_not_onGrid h) program⟩

/-- **What a write leaves at its place.** -/
theorem exists_get_apply_set (hg : g.WellFormed) (h : g.OnGrid x y) (program : Program) :
    ∃ old new : Cell, g.get x y = .ok old ∧ (g.apply (.set x y program)).1.get x y = .ok new ∧
      new.locked = false ∧ new.tape = program.tapeFrom old.stream ∧
      new.stream = old.stream.advance program.draws := by
  obtain ⟨old, hold⟩ := (exists_get_iff hg x y).mpr h
  obtain ⟨i, hplace, hcell⟩ := get_eq_ok.mp hold
  rw [apply_set_of_ok hplace]
  refine ⟨old, _, hold, get_overwrite_self hplace hcell, rfl, ?_, ?_⟩ <;>
    rw [Program.writeTo_eq] <;> rfl

/-- **What a write leaves alone**: the other places and cells, and what the soup is run with. -/
theorem apply_set_frame (g : Grid) (x y : Int32) (program : Program) :
    let next := (g.apply (.set x y program)).1
    (∀ x' y', ¬ (x' = x ∧ y' = y) → next.get x' y' = g.get x' y') ∧
      (∀ i, g.place? x y ≠ .ok i → next.cells[i]? = g.cells[i]?) ∧
      next.epoch = g.epoch ∧ next.params = g.params := by
  obtain ⟨-, i, hplace, h⟩ | ⟨-, h⟩ := apply_set_cases g x y program <;> rw [h]
  · refine ⟨fun x' y' hne => get_overwrite_of_ne hplace hne program, fun j hj => ?_, rfl, rfl⟩
    rw [hplace] at hj
    exact (getElem?_overwrite g i j program).trans (if_neg fun hij => hj (congrArg _ hij))
  · exact ⟨fun _ _ _ => rfl, fun _ _ => rfl, rfl, rfl⟩

/-- **The cells of a soup are a store.**  A program is written exactly at the places on the grid.
There the cell is released and holds the program's tape, which for noise are the bytes of the next
sixteen words of the cell's own stream; the stream has moved on by the words that were drawn.
Everything else stays, and writes to different places commute, whether they succeed or not.
Writing by number writes the built-in program of that number; any other number is refused before
the place is looked at.  A write that fails leaves the soup as it is. -/
theorem storage_laws (hg : g.WellFormed) (x y : Int32) (program : Program) :
    let next := g.apply (.set x y program)
    (next.2 = none ↔ g.OnGrid x y) ∧
      (g.OnGrid x y → ∃ old new : Cell, g.get x y = .ok old ∧ next.1.get x y = .ok new ∧
        new.locked = false ∧ new.tape = program.tapeFrom old.stream ∧
        new.stream = old.stream.advance program.draws) ∧
      ((∀ x' y', ¬ (x' = x ∧ y' = y) → next.1.get x' y' = g.get x' y') ∧
        (∀ i, g.place? x y ≠ .ok i → next.1.cells[i]? = g.cells[i]?) ∧
        next.1.epoch = g.epoch ∧ next.1.params = g.params) ∧
      (∀ (x' y' : Int32) (other : Program), ¬ (x' = x ∧ y' = y) →
        let second := g.apply (.set x' y' other)
        next.1.apply (.set x' y' other) = ((second.1.apply (.set x y program)).1, second.2) ∧
          (second.1.apply (.set x y program)).2 = next.2) ∧
      (g.apply (.setBuiltIn x y 0) = g.apply (.set x y .empty) ∧
        g.apply (.setBuiltIn x y 1) = g.apply (.set x y .replicator) ∧
        g.apply (.setBuiltIn x y 2) = g.apply (.set x y .noise) ∧
        ∀ id, id ≠ 0 → id ≠ 1 → id ≠ 2 →
          g.apply (.setBuiltIn x y id) = (g, some (.unknownProgram id))) ∧
      (next.2 ≠ none → next = (g, some (.outOfBounds x y g.params.width g.params.height))) ∧
      ∀ id, (g.apply (.setBuiltIn x y id)).2 ≠ none → (g.apply (.setBuiltIn x y id)).1 = g := by
  intro next
  refine ⟨?_, fun h => exists_get_apply_set hg h program, apply_set_frame g x y program,
    fun x' y' other hne => apply_set_comm g hne program other,
    ⟨rfl, rfl, rfl, fun id h0 h1 h2 => ?_⟩, fun hfail => ?_, fun id => fst_apply_of_failed g _⟩
  · obtain ⟨hin, i, -, h⟩ | ⟨hout, h⟩ := apply_set_cases g x y program
    · exact iff_of_true (congrArg Prod.snd h) hin
    · exact iff_of_false (fun hnone => by cases (congrArg Prod.snd h).symm.trans hnone) hout
  · rw [apply, setBuiltIn, builtIn?_eq_none h0 h1 h2]
    rfl
  · obtain ⟨-, i, -, h⟩ | ⟨-, h⟩ := apply_set_cases g x y program
    · exact absurd (congrArg Prod.snd h) hfail
    · exact h

/-- Noise onto the locked cell of the square, and an unknown number beside the grid. -/
theorem storage_laws_square :
    square.WellFormed ∧ square.OnGrid 0 1 ∧ ¬ square.OnGrid (-1) 7 ∧
      (square.apply (.set 0 1 .noise)).2 = none ∧
      (∃ old new : Cell, square.get 0 1 = .ok old ∧
        (square.apply (.set 0 1 .noise)).1.get 0 1 = .ok new ∧ new.locked = false ∧
        new.tape = Program.noise.tapeFrom old.stream ∧ new.stream = old.stream.advance 16) ∧
      (square.apply (.set (-1) 7 .empty)).2 ≠ none ∧
      square.apply (.setBuiltIn (-1) 7 3) = (square, some (.unknownProgram 3)) := by
  have hin : square.OnGrid 0 1 := ⟨by decide, by decide⟩
  have hout : ¬ square.OnGrid (-1) 7 := fun h => absurd h.1.1 (by decide)
  obtain ⟨hsucceeds, hstored, -⟩ := storage_laws wellFormed_square 0 1 .noise
  obtain ⟨hsucceeds', -, -, -, ⟨-, -, -, hunknown⟩, -⟩ :=
    storage_laws wellFormed_square (-1) 7 .empty
  exact ⟨wellFormed_square, hin, hout, hsucceeds.mpr hin, hstored hin,
    fun h => hout (hsucceeds'.mp h), hunknown 3 (by decide) (by decide) (by decide)⟩

end Grid

end TapeLife
