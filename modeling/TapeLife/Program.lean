import TapeLife.Cell

/-!
# Program — what can be written onto a tape

Three programs are built in and have numbers; any text or tape is a program too.  Writing a program
replaces the whole tape, and only noise touches the cell's stream.
-/

namespace TapeLife

/-- Something to write onto the tape of a cell. -/
inductive Program
  /-- Zeros. -/
  | empty
  /-- The copier of its own non-zero beginning. -/
  | replicator
  /-- Bytes from the cell's own stream. -/
  | noise
  /-- A tape as it is. -/
  | literal (tape : Tape)
deriving DecidableEq

namespace Program

/-- The loop that copies the data head's byte to the channel head and moves both heads right. -/
def replicatorTape : Tape := Tape.ofBytes [0x5b, 0x2e, 0x3e, 0x7d, 0x5d]

/-- The built-in program of a number. -/
def builtIn? (id : Int32) : Option Program :=
  if id = 0 then some .empty
  else if id = 1 then some .replicator
  else if id = 2 then some .noise
  else none

/-- A text as a program, cut or padded to a tape. -/
def ofText (text : String) : Program := .literal (Tape.ofText text)

/-- The cell with the program written onto its tape. -/
def writeTo : Program → Cell → Cell
  | .empty, cell => { cell with tape := Tape.blank }
  | .replicator, cell => { cell with tape := replicatorTape }
  | .noise, cell =>
    let drawn := cell.stream.fill tapeSize
    { cell with tape := Tape.ofBytes drawn.1, stream := drawn.2 }
  | .literal tape, cell => { cell with tape }

end Program

end TapeLife
