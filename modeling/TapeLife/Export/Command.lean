import TapeLife.Checkpoint.Name
import TapeLife.Export.Arguments
import TapeLife.Files.Output
import TapeLife.Saved.Soup

/-!
# Export/Command — saved soups into one table

The rows of every saved soup follow each other under one heading.  All files are loaded into the
same soup, one after the other.  A file that cannot be read is passed over with a warning and leaves
no trace in the table.
-/

namespace TapeLife

/-- Everything that an export does. -/
structure ExportOutcome where
  exitCode : Nat
  stdout : String
  stderr : String
  tree : FileTree

/-- Every member of a list whose number is a multiple of `stride`. -/
def everyNth {α : Type} (stride : Nat) (items : List α) : List α :=
  items.zipIdx.filterMap fun (a, i) => if i % stride = 0 then some a else none

namespace ExportOptions

/-- The files to export: the input itself, or checkpoints of a directory. -/
def files (o : ExportOptions) (tree : FileTree) : Except FileError (List Path) :=
  if tree.isDirectory o.input then do
    return everyNth o.stride ((← tree.checkpoints o.input).map (·.2))
  else .ok [o.input]

end ExportOptions

/-- An export in progress. -/
structure Exporting where
  tree : FileTree
  out : OutputFile
  /-- The soup that files are loaded into. -/
  grid : Grid
  stdout : String
  stderr : String

namespace Exporting

/-- The soup before the first file: one cell. -/
def oneCell : Grid := .grow { Params.standard with width := 1, height := 1 } .zero

/-- Nothing is exported yet; the heading waits. -/
def start (table : TableOptions) (tree : FileTree) (place : Location) : Exporting :=
  { tree, out := .start place (tableHeading table ++ "\n"), grid := oneCell, stdout := "",
    stderr := "" }

/-- Exports one file. -/
def file (table : TableOptions) (e : Exporting) (path : Path) : Exporting :=
  match e.grid.loadFrom e.tree path with
  | (grid, some cause) =>
    { e with grid, stderr := e.stderr ++ s!"Warning: skipping {path}: {cause.message}\n" }
  | (grid, none) =>
    let rows := grid.table table
    let (tree, out) := (e.out.append rows.text).flush e.tree
    { e with
      tree, out, grid
      stdout := e.stdout ++ s!"Exported epoch {grid.epoch} ({rows.count} rows, {path})\n" }

end Exporting

namespace Export

/-- An export that ends with the usage text. -/
def usage (tree : FileTree) (cause : UsageError) : ExportOutcome := ⟨2, "", usageText cause, tree⟩

/-- An export that ends with a fault of the files. -/
def fail (tree : FileTree) (cause : FileError) : ExportOutcome :=
  ⟨1, "", s!"Error: {cause.report}\n", tree⟩

/-- Follows a command line. -/
def follow (arguments : List String) (tree : FileTree) : ExportOutcome :=
  match ExportOptions.ofArguments arguments with
  | .error cause => usage tree cause
  | .ok o =>
    match o.files tree with
    | .error cause => fail tree cause
    | .ok [] => usage tree .nothingFound
    | .ok files =>
      match tree.create o.output with
      | .error cause => fail tree cause
      | .ok (place, tree) =>
        let e := files.foldl (Exporting.file o.table) (.start o.table tree place)
        ⟨0, e.stdout ++ s!"Wrote CSV: {o.output}\n", e.stderr, (e.out.flush e.tree).1⟩

end Export

end TapeLife
