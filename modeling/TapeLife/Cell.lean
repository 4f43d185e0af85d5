import TapeLife.Tape

/-!
# Cell — one place of the soup

A cell owns a tape, a random stream, and a lock that is held while an interaction owns the cell.
-/

namespace TapeLife

/-- One place of the soup. -/
structure Cell where
  /-- Held while an interaction owns the cell. -/
  locked : Bool
  tape : Tape
  /-- The source of every random choice made for this cell. -/
  stream : Stream
deriving DecidableEq

namespace Cell

/-- A free cell with a blank tape. -/
def fresh (stream : Stream) : Cell := ⟨false, Tape.blank, stream⟩

/-- Whether nothing is written on the tape. -/
def isBlank (cell : Cell) : Bool := cell.tape.isBlank

/-- The cell with its lock released. -/
def unlock (cell : Cell) : Cell := { cell with locked := false }

end Cell

end TapeLife
