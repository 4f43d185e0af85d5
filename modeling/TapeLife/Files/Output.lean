import TapeLife.Files.Tree

/-!
# Files/Output — a file that is being written

Text for a file waits in memory until it is flushed.  A flush writes at the place where the last one
ended, whatever happened to the file in between.
-/

namespace TapeLife

/-- An open file, the number of bytes written to it so far, and the bytes that wait. -/
structure OutputFile where
  place : Location
  written : Nat
  waiting : List UInt8

namespace OutputFile

/-- A file that was just created, with a text that waits. -/
def start (place : Location) (text : String) : OutputFile := ⟨place, 0, text.toUTF8.toList⟩

/-- Writes what waits. -/
def flush (out : OutputFile) (tree : FileTree) : FileTree × OutputFile :=
  if out.waiting.isEmpty then (tree, out)
  else (tree.writeAt out.place out.written out.waiting,
    { out with written := out.written + out.waiting.length, waiting := [] })

/-- Adds a text to what waits. -/
def append (out : OutputFile) (text : String) : OutputFile :=
  { out with waiting := out.waiting ++ text.toUTF8.toList }

end OutputFile

end TapeLife
