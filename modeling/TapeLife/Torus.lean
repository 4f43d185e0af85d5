/-!
# Torus — places on a grid whose edges meet

Cells are numbered row by row.  A step off one edge comes back at the opposite one
(`Torus.shift`), and the distance of two cells is the larger of their column and row distances, each
taken the short way round (`Torus.distance`).
-/

namespace TapeLife

/-- The shape of a grid whose edges meet. -/
structure Torus where
  width : Nat
  height : Nat
deriving DecidableEq, Repr

namespace Torus

/-- The number of cells. -/
def area (t : Torus) : Nat := t.width * t.height

/-- The column of a cell. -/
def column (t : Torus) (i : Nat) : Nat := i % t.width

/-- The row of a cell. -/
def row (t : Torus) (i : Nat) : Nat := i / t.width

/-- The cell at a column and a row. -/
def index (t : Torus) (x y : Nat) : Nat := y * t.width + x

/-- The cell that lies `dx` columns and `dy` rows away, around the edges. -/
def shift (t : Torus) (i : Nat) (dx dy : Int) : Nat :=
  t.index ((t.column i + dx) % t.width).toNat ((t.row i + dy) % t.height).toNat

/-- The distance of two places on a circle. -/
def roundDistance (size a b : Nat) : Nat :=
  let direct := max a b - min a b
  min direct (size - direct)

/-- The number of steps between two cells when a step may go sideways, up or down, or both. -/
def distance (t : Torus) (a b : Nat) : Nat :=
  max (roundDistance t.width (t.column a) (t.column b))
    (roundDistance t.height (t.row a) (t.row b))

end Torus

end TapeLife
