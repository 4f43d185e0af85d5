import TapeLife.Cell
import TapeLife.Grid.Error
import TapeLife.Program

/-!
# Grid/Basic — the soup and its cells

A `Grid` is cells row by row, an epoch counter and parameters.  `Grid.WellFormed` is what every
operation promises: parameters that a soup can be run with, and one cell for every place.
Operations that can fail give a new grid or a cause; the old grid is a value and stays what it was.
-/

namespace TapeLife

/-- What the tapes of a new soup hold. -/
inductive Fill
  | zero
  /-- Bytes from each cell's own stream. -/
  | random
deriving DecidableEq, Repr

/-- A soup. -/
structure Grid where
  params : Params
  epoch : UInt32
  /-- Row by row. -/
  cells : Array Cell
deriving DecidableEq

namespace Grid

/-- Valid parameters, and one cell for every place. -/
structure WellFormed (g : Grid) : Prop where
  valid : g.params.Valid
  size_cells : g.cells.size = g.params.cellCount

/-- The torus of the cells. -/
abbrev torus (g : Grid) : Torus := g.params.torus

/-- The cell that a new soup has at a place. -/
def newCell (torus : Torus) (seed : UInt64) (fill : Fill) (i : Nat) : Cell :=
  let place := Stream.ofPlace seed (UInt32.ofNat (torus.column i)) (UInt32.ofNat (torus.row i))
  let cell := Cell.fresh place
  match fill with
  | .zero => cell
  | .random => Program.noise.writeTo cell

/-- A soup grown from parameters, without a look at whether they are valid. -/
def grow (params : Params) (fill : Fill) : Grid :=
  { params
    epoch := 0
    cells := Array.ofFn fun i : Fin params.cellCount => newCell params.torus params.seed fill i }

/-- A new soup with blank tapes. -/
def create (params : Params) : Except SoupError Grid :=
  match params.fault? with
  | some cause => .error (.invalidParams cause)
  | none => .ok (grow params .zero)

/-- A soup of given cells. -/
def assemble (params : Params) (epoch : UInt32) (cells : Array Cell) : Except SoupError Grid :=
  match params.fault? with
  | some cause => .error (.invalidParams cause)
  | none =>
    if cells.size ≠ params.cellCount then
      .error (.format (.wrongCellCount params.cellCount params.width params.height cells.size))
    else .ok { params, epoch, cells }

/-- Starts over from a seed: new cells, epoch zero. -/
def reset (g : Grid) (seed : UInt64) (fill : Fill) : Grid :=
  grow { g.params with seed } fill

/-- The number of the cell at coordinates, if they are on the grid. -/
def place? (g : Grid) (x y : Int32) : Except SoupError Nat :=
  if 0 ≤ x.toInt ∧ x.toInt < g.params.width.toNat ∧ 0 ≤ y.toInt ∧ y.toInt < g.params.height.toNat
  then .ok (g.torus.index x.toInt.toNat y.toInt.toNat)
  else .error (.outOfBounds x y g.params.width g.params.height)

/-- The cell at coordinates. -/
def get (g : Grid) (x y : Int32) : Except SoupError Cell := do
  let i ← g.place? x y
  match g.cells[i]? with
  | some cell => .ok cell
  | none => .error (.outOfBounds x y g.params.width g.params.height)

/-- Writes a program onto the tape at coordinates and releases the cell. -/
def set (g : Grid) (x y : Int32) (program : Program) : Except SoupError Grid := do
  let i ← g.place? x y
  .ok { g with cells := g.cells.modify i fun cell => (program.writeTo cell).unlock }

/-- Writes the built-in program of a number. -/
def setBuiltIn (g : Grid) (x y : Int32) (id : Int32) : Except SoupError Grid :=
  match Program.builtIn? id with
  | some program => g.set x y program
  | none => .error (.unknownProgram id)

/-- Whether two soups agree, rates as numbers. -/
def same (g h : Grid) : Bool :=
  g.params.same h.params && g.epoch == h.epoch && g.cells == h.cells

/-- The locks of all cells. -/
def locks (g : Grid) : Array Bool := g.cells.map (·.locked)

end Grid

end TapeLife
