import TapeLife.Proofs.Export.Text
import TapeLife.Proofs.Grid.Matching

/-!
# Proofs/Export/Rows — a table loses nothing

    cells ──rows──▸ text ──rowsOf──▸ rows ──columnsOf──▸ epoch, place, lock, stream, tape

The columns of a row can be read back (`columnsOf_cellRow`), so what is left out and what is shown
of a tape can be told from the rows alone, and tables that show all of every tape differ if the
soups do (`Grid.table_lossless`).
-/

namespace TapeLife

/-! ## The last place -/

namespace Torus

variable {s t : Torus}

theorem index_last (hw : 0 < t.width) (hh : 0 < t.height) :
    t.index (t.width - 1) (t.height - 1) = t.area - 1 := by
  have hrows : t.width * (t.height - 1) + t.width = t.area := by
    rw [← Nat.mul_succ, Nat.succ_eq_add_one, Nat.sub_add_cancel hh, area]
  rw [index, Nat.mul_comm]
  omega

theorem column_last (hw : 0 < t.width) (hh : 0 < t.height) :
    t.column (t.area - 1) = t.width - 1 := by
  rw [← index_last hw hh, column_index (Nat.sub_lt hw Nat.one_pos)]

/-- The number of places and the last column tell the shape. -/
theorem eq_of_column_last (hs : 0 < s.area) (harea : s.area = t.area)
    (hcolumn : s.column (s.area - 1) = t.column (t.area - 1)) : s = t := by
  have ht : 0 < t.area := harea ▸ hs
  have hsw := Nat.pos_of_mul_pos_right hs
  have htw := Nat.pos_of_mul_pos_right ht
  have hsh := Nat.pos_of_mul_pos_left hs
  have hth := Nat.pos_of_mul_pos_left ht
  rw [column_last hsw hsh, column_last htw hth] at hcolumn
  have hwidth : s.width = t.width := by omega
  rw [area, area, hwidth] at harea
  have hheight : s.height = t.height := Nat.eq_of_mul_eq_mul_left htw harea
  cases s
  cases t
  rw [Torus.mk.injEq]
  exact ⟨hwidth, hheight⟩

end Torus

variable {options : TableOptions} {g h : Grid}

/-! ## One row -/

theorem isPlain_of_mem_cellColumns {i : Nat} {cell : Cell} {column : String}
    (hc : column ∈ cellColumns options g i cell) : IsPlain column := by
  rw [cellColumns] at hc
  obtain hcolumn | hhex := List.mem_append.mp hc
  · simp only [List.mem_cons, List.not_mem_nil, or_false] at hcolumn
    obtain rfl | rfl | rfl | rfl | rfl | rfl | rfl := hcolumn
    exacts [isPlain_decimalText _, isPlain_decimalText _, isPlain_decimalText _, isPlain_hexWord _,
      isPlain_flagText _, isPlain_flagText _, isPlain_hexWord _]
  · split at hhex
    · rw [List.mem_singleton.mp hhex]
      exact isPlain_hexBytes _
    · exact absurd hhex List.not_mem_nil

/-- **A row gives back its columns.** -/
theorem columnsOf_cellRow (options : TableOptions) (g : Grid) (i : Nat) (cell : Cell) :
    columnsOf (cellRow options g i cell) = cellColumns options g i cell :=
  columnsOf_intercalate (by simp [cellColumns]) fun _ => isPlain_of_mem_cellColumns

theorem newline_notMem_cellRow (options : TableOptions) (g : Grid) (i : Nat) (cell : Cell) :
    '\n' ∉ (cellRow options g i cell).toList :=
  newline_notMem_intercalate fun _ => isPlain_of_mem_cellColumns

/-- **The row of a cell tells its place in the soup and the cell**, if all of its tape is shown. -/
theorem cell_of_cellRow {i j : Nat} {cell cell' : Cell}
    (hrow : cellRow ⟨tapeSize, false⟩ g i cell = cellRow ⟨tapeSize, false⟩ h j cell') :
    g.epoch = h.epoch ∧ g.torus.column i = h.torus.column j ∧ g.torus.row i = h.torus.row j ∧
      cell = cell' := by
  have hcolumns := congrArg columnsOf hrow
  rw [columnsOf_cellRow, columnsOf_cellRow] at hcolumns
  simp only [cellColumns, if_pos (show 0 < tapeSize by decide), List.cons_append, List.nil_append,
    List.cons.injEq, and_true] at hcolumns
  obtain ⟨hepoch, hcolumn, hline, -, -, hlocked, hstate, hbytes⟩ := hcolumns
  have htape : cell.tape.toList = cell'.tape.toList := by
    have htake := hexBytes_inj hbytes
    rwa [List.take_of_length_le (by simp), List.take_of_length_le (by simp)] at htake
  refine ⟨UInt32.toNat_inj.mp (decimalText_inj hepoch), decimalText_inj hcolumn,
    decimalText_inj hline, ?_⟩
  have hstream : cell.stream = cell'.stream := congrArg Stream.mk (hexWord_inj hstate)
  cases cell
  cases cell'
  rw [Cell.mk.injEq]
  exact ⟨flagText_inj hlocked, Vector.toList_inj.mp htape, hstream⟩

/-! ## All rows -/

/-- The cells that a table shows, with their numbers. -/
def shownCells (skipBlank : Bool) (g : Grid) : List (Cell × Nat) :=
  g.cells.toList.zipIdx.filter fun (cell, _) => !(skipBlank && cell.isBlank)

theorem rows_eq_map (options : TableOptions) (g : Grid) :
    g.rows options
      = (shownCells options.skipBlank g).map fun (cell, i) => cellRow options g i cell := by
  rw [Grid.rows, shownCells, ← List.filterMap_eq_map, List.filterMap_filter]
  congr 1
  funext ⟨cell, i⟩
  cases hskip : options.skipBlank && cell.isBlank <;> simp [hskip]

/-- A table is its rows, each with an end of line, and their number. -/
theorem table_eq (options : TableOptions) (g : Grid) :
    g.table options
      = ⟨String.join ((g.rows options).map (· ++ "\n")), (g.rows options).length⟩ := by
  have hfold : ∀ (cells : List (Cell × Nat)) (table : Table),
      cells.foldl (fun table (cell, i) => table.visit options g i cell) table
        = let rows := cells.filterMap fun (cell, i) =>
            if options.skipBlank && cell.isBlank then none else some (cellRow options g i cell)
          ⟨table.text ++ String.join (rows.map (· ++ "\n")), table.count + rows.length⟩ := by
    intro cells
    induction cells with
    | nil => simp
    | cons entry cells ih =>
      intro table
      obtain ⟨cell, i⟩ := entry
      rw [List.foldl_cons, ih, List.filterMap_cons]
      dsimp only
      rw [Table.visit]
      cases hskip : options.skipBlank && cell.isBlank
      · simp [String.append_assoc, Nat.add_assoc, Nat.add_comm]
      · simp
  rw [Grid.table, hfold, Grid.rows]
  simp

namespace Grid

/-- The rows in the text of a table. -/
def writtenRows (options : TableOptions) (g : Grid) : List String :=
  rowsOf (g.table options).text

/-- **A table falls into its rows.** -/
theorem writtenRows_eq (options : TableOptions) (g : Grid) :
    g.writtenRows options = g.rows options := by
  rw [writtenRows, table_eq]
  refine rowsOf_join fun row hrow => ?_
  rw [rows_eq_map] at hrow
  obtain ⟨⟨cell, i⟩, -, rfl⟩ := List.mem_map.mp hrow
  exact newline_notMem_cellRow options g i cell

theorem shownCells_false (g : Grid) : shownCells false g = g.cells.toList.zipIdx := by
  simp [shownCells]

/-- Row by row of the grid, one row for every cell. -/
theorem getElem?_rows (n : Nat) (g : Grid) (i : Nat) :
    (g.rows ⟨n, false⟩)[i]? = g.cells[i]?.map (cellRow ⟨n, false⟩ g i) := by
  rw [rows_eq_map, shownCells_false, List.getElem?_map, List.getElem?_zipIdx, Array.getElem?_toList]
  cases g.cells[i]? <;> simp

/-- What is left out can be told from the rows: it is blank. -/
theorem rows_skipBlank (n : Nat) (g : Grid) :
    g.rows ⟨n, true⟩
      = (g.rows ⟨n, false⟩).filter fun row => (columnsOf row)[4]? ≠ some "true" := by
  rw [rows_eq_map, rows_eq_map, List.filter_map, shownCells_false, shownCells]
  congr 1
  refine List.filter_congr fun ⟨cell, i⟩ _ => ?_
  simp only [Function.comp_apply, columnsOf_cellRow]
  cases hblank : cell.isBlank <;> simp [cellColumns, flagText, hblank]

/-- A row that shows fewer bytes of a tape begins like the row that shows all of them. -/
theorem columnsOf_rows {n : Nat} {skipBlank : Bool} {g : Grid} {k : Nat}
    {row full : String} (hrow : (g.rows ⟨n, skipBlank⟩)[k]? = some row)
    (hfull : (g.rows ⟨tapeSize, skipBlank⟩)[k]? = some full) :
    columnsOf row = (columnsOf full).take 7 ++ if n = 0 then [] else
      ((columnsOf full)[7]?.map fun hex => String.ofList (hex.toList.take (2 * n))).toList := by
  rw [rows_eq_map, List.getElem?_map, Option.map_eq_some_iff] at hrow hfull
  obtain ⟨⟨cell, i⟩, hcell, rfl⟩ := hrow
  obtain ⟨entry, hentry, rfl⟩ := hfull
  obtain rfl : (cell, i) = entry := Option.some.inj (hcell.symm.trans hentry)
  have hall : cell.tape.toList.take tapeSize = cell.tape.toList :=
    List.take_of_length_le (by simp)
  have hfirst : hexBytes (cell.tape.toList.take n)
      = String.ofList ((hexBytes cell.tape.toList).toList.take (2 * n)) := by
    rw [← hexBytes_take, String.ofList_toList]
  simp only [columnsOf_cellRow, cellColumns, if_pos (show 0 < tapeSize by decide), hall, hfirst]
  cases n <;> simp

/-! ## All that a table tells -/

/-- **Soups with the same rows are the same soup**, but for what a table does not show. -/
theorem eq_of_rows (hg : g.WellFormed) (hh : h.WellFormed)
    (hrows : g.rows ⟨tapeSize, false⟩ = h.rows ⟨tapeSize, false⟩) :
    g.epoch = h.epoch ∧ g.torus = h.torus ∧ g.cells = h.cells := by
  have hrow : ∀ i, (g.cells[i]?.map (cellRow ⟨tapeSize, false⟩ g i))
      = h.cells[i]?.map (cellRow ⟨tapeSize, false⟩ h i) := fun i => by
    rw [← getElem?_rows, hrows, getElem?_rows]
  have hsize : g.cells.size = h.cells.size := by
    have hlength := congrArg List.length hrows
    simpa [rows_eq_map, shownCells_false] using hlength
  have hcell : ∀ i (hi : i < g.cells.size) (hi' : i < h.cells.size),
      cellRow ⟨tapeSize, false⟩ g i g.cells[i] = cellRow ⟨tapeSize, false⟩ h i h.cells[i] :=
    fun i hi hi' => by simpa [hi, hi'] using hrow i
  have hlast : g.cells.size = g.torus.area := hg.size_cells
  have harea : g.torus.area = h.torus.area := hlast.symm.trans (hsize.trans hh.size_cells)
  have hpos : 0 < g.torus.area := Nat.mul_pos hg.valid.width_pos hg.valid.height_pos
  obtain ⟨hepoch, hcolumn, -, -⟩ :=
    cell_of_cellRow (hcell (g.torus.area - 1) (by omega) (by omega))
  refine ⟨hepoch, Torus.eq_of_column_last hpos harea (harea ▸ hcolumn), ?_⟩
  exact Array.ext hsize fun i hi hi' => (cell_of_cellRow (hcell i hi hi')).2.2.2

/-- **A table loses nothing.**  If all of every tape is shown and no tape is left out, well-formed
soups with the same table have the same epoch and shape, and the same cell at every place.  However
many bytes are shown, the text falls into one row for every cell, row by row of the grid.  Without
blank tapes it has the same rows, but for those whose fifth column says that the tape is blank.  The
count is the number of rows in the text, and a row that shows `n` bytes is the one that shows all of
them up to the last column, of which it has the first `2 * n` digits. -/
theorem table_lossless :
    (∀ g h : Grid, g.WellFormed → h.WellFormed →
      (g.table ⟨64, false⟩).text = (h.table ⟨64, false⟩).text →
      g.epoch = h.epoch ∧ g.params.width = h.params.width ∧ g.params.height = h.params.height ∧
        ∀ x y, g.get x y = h.get x y) ∧
    ∀ (g : Grid), ∀ n ≤ 64,
      (∀ i : Nat, (g.writtenRows ⟨n, false⟩)[i]?.map columnsOf = g.cells[i]?.map fun cell =>
        [decimalText g.epoch.toNat, decimalText (i % g.params.width.toNat),
          decimalText (i / g.params.width.toNat), hexWord (hash64 cell.tape.toList),
          flagText cell.isBlank, flagText cell.locked, hexWord cell.stream.state]
          ++ if 0 < n then [hexBytes (cell.tape.toList.take n)] else []) ∧
      g.writtenRows ⟨n, true⟩
        = (g.writtenRows ⟨n, false⟩).filter (fun row => (columnsOf row)[4]? ≠ some "true") ∧
      ∀ skipBlank, (g.table ⟨n, skipBlank⟩).count = (g.writtenRows ⟨n, skipBlank⟩).length ∧
        ∀ (k : Nat) (row full : String), (g.writtenRows ⟨n, skipBlank⟩)[k]? = some row →
          (g.writtenRows ⟨64, skipBlank⟩)[k]? = some full →
          columnsOf row = (columnsOf full).take 7 ++ if n = 0 then [] else
            ((columnsOf full)[7]?.map fun hex => String.ofList (hex.toList.take (2 * n))).toList := by
  refine ⟨fun g h hg hh htext => ?injective, fun g n _ => ⟨fun i => ?cells, ?blank,
    fun skipBlank => ⟨?count, fun k row full hrow hfull => ?digits⟩⟩⟩
  case injective =>
    have hrows : g.writtenRows ⟨64, false⟩ = h.writtenRows ⟨64, false⟩ := congrArg rowsOf htext
    rw [writtenRows_eq, writtenRows_eq] at hrows
    obtain ⟨hepoch, htorus, hcells⟩ := eq_of_rows hg hh hrows
    obtain ⟨hwidth, hheight⟩ := Torus.mk.inj htorus
    have hw := UInt32.toNat_inj.mp hwidth
    have hh := UInt32.toNat_inj.mp hheight
    refine ⟨hepoch, hw, hh, fun x y => ?_⟩
    simp only [get, place?, htorus, hw, hh, hcells]
  case cells =>
    rw [writtenRows_eq, getElem?_rows, Option.map_map]
    exact Option.map_congr fun cell _ => columnsOf_cellRow ⟨n, false⟩ g i cell
  case blank =>
    rw [writtenRows_eq, writtenRows_eq]
    exact rows_skipBlank n g
  case count => rw [writtenRows_eq, table_eq]
  case digits =>
    rw [writtenRows_eq] at hrow hfull
    exact columnsOf_rows hrow hfull

/-- A soup and the same soup with its one lock released have different tables. -/
theorem table_lossless_square :
    square.WellFormed ∧ { square with cells := square.cells.map Cell.unlock }.WellFormed ∧
      (square.table ⟨64, false⟩).text
        ≠ ({ square with cells := square.cells.map Cell.unlock }.table ⟨64, false⟩).text := by
  have hreleased : { square with cells := square.cells.map Cell.unlock }.WellFormed :=
    ⟨wellFormed_square.valid, by simp [wellFormed_square.size_cells]⟩
  refine ⟨wellFormed_square, hreleased, fun htext => ?_⟩
  obtain ⟨-, -, -, hget⟩ := table_lossless.1 _ _ wellFormed_square hreleased htext
  have hlock := congrArg (fun cell => cell.toOption.map (·.locked)) (hget 0 1)
  exact absurd hlock (by decide +kernel)

end Grid

end TapeLife
