import TapeLife.Decimal.Basic
import TapeLife.Export.Hash
import TapeLife.Grid.Basic

/-!
# Export/Rows — a soup as a table

One row for every cell, row by row of the grid: epoch and place, the hash of the tape, whether the
tape is blank, the lock, the state of the stream, and the first bytes of the tape in hexadecimal if
any are asked for.  A table is written row by row, and the rows are counted (`Grid.table`).
-/

namespace TapeLife

/-- What a table shows. -/
structure TableOptions where
  /-- Bytes of every tape. -/
  bytesShown : Nat
  /-- Whether blank tapes have no row. -/
  skipBlank : Bool

/-- A byte in two hexadecimal digits. -/
def hexByte (byte : UInt8) : List Char :=
  [Nat.digitChar (byte.toNat / 16), Nat.digitChar (byte.toNat % 16)]

/-- Bytes in hexadecimal digits. -/
def hexBytes (bytes : List UInt8) : String := String.ofList (bytes.flatMap hexByte)

/-- A word in sixteen hexadecimal digits. -/
def hexWord (w : UInt64) : String :=
  let ds := Nat.toDigits 16 w.toNat
  String.ofList (List.replicate (16 - ds.length) '0' ++ ds)

/-- A truth value in a table. -/
def flagText (b : Bool) : String := if b then "true" else "false"

/-- The heading of a table. -/
def tableHeading (options : TableOptions) : String :=
  "epoch,x,y,hash64,is_zero,locked,rand_state"
    ++ if 0 < options.bytesShown then ",bytes_hex" else ""

/-- The columns of the cell of a number. -/
def cellColumns (options : TableOptions) (g : Grid) (i : Nat) (cell : Cell) : List String :=
  [decimalText g.epoch.toNat, decimalText (g.torus.column i), decimalText (g.torus.row i),
    hexWord (hash64 cell.tape.toList), flagText cell.isBlank, flagText cell.locked,
    hexWord cell.stream.state]
    ++ if 0 < options.bytesShown then [hexBytes (cell.tape.toList.take options.bytesShown)] else []

/-- The row of the cell of a number. -/
def cellRow (options : TableOptions) (g : Grid) (i : Nat) (cell : Cell) : String :=
  ",".intercalate (cellColumns options g i cell)

/-- The rows of a soup. -/
def Grid.rows (options : TableOptions) (g : Grid) : List String :=
  g.cells.toList.zipIdx.filterMap fun (cell, i) =>
    if options.skipBlank && cell.isBlank then none else some (cellRow options g i cell)

/-- What has been written of a table, without its heading. -/
structure Table where
  text : String
  /-- How many rows were written. -/
  count : Nat
deriving DecidableEq

/-- Writes the row of the cell of a number, unless its tape is blank and is not to be shown. -/
def Table.visit (options : TableOptions) (g : Grid) (table : Table) (i : Nat) (cell : Cell) :
    Table :=
  if options.skipBlank && cell.isBlank then table
  else ⟨table.text ++ cellRow options g i cell ++ "\n", table.count + 1⟩

/-- The table of a soup. -/
def Grid.table (options : TableOptions) (g : Grid) : Table :=
  g.cells.toList.zipIdx.foldl (fun table (cell, i) => table.visit options g i cell) ⟨"", 0⟩

end TapeLife
