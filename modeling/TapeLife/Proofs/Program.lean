import TapeLife.Grid.Basic

/-!
# Proofs/Program — what is left behind when a program is written

    stream ──16 or 0 words──▸ stream
       └───── tapeFrom ─────▸ tape

Writing a program replaces the tape by one that depends on nothing but the program and the stream,
and moves the stream on by the words that the program draws (`Program.writeTo_eq`).  The cells of a
new soup are fresh ones that a program was written to (`Grid.newCell_eq`).
-/

namespace TapeLife

namespace Stream

/-- Whole words leave no bytes over. -/
theorem fill_four_mul (n : Nat) (s : Stream) :
    s.fill (4 * n) = ((s.words n).flatMap bytesOf, s.advance n) := by
  induction n generalizing s with
  | zero => rfl
  | succ n ih => rw [Nat.mul_succ, fill, ih, words, advance, List.flatMap_cons]

end Stream

namespace Program

/-- The tape that is left behind when a program is written with a stream to draw from. -/
def tapeFrom (s : Stream) : Program → Tape
  | .empty => Tape.blank
  | .replicator => replicatorTape
  | .noise => Tape.ofBytes ((s.words 16).flatMap Stream.bytesOf)
  | .literal tape => tape

/-- The words that are drawn when a program is written. -/
def draws : Program → Nat
  | .noise => 16
  | .empty | .replicator | .literal _ => 0

/-- **A program replaces the tape, and moves the stream on by what it draws.** -/
theorem writeTo_eq (program : Program) (cell : Cell) : program.writeTo cell =
    { cell with
      tape := program.tapeFrom cell.stream
      stream := cell.stream.advance program.draws } := by
  cases program with
  | noise => rw [writeTo, Stream.fill_four_mul 16]; rfl
  | empty | replicator | literal => rfl

end Program

/-! ## What a soup is born with -/

/-- What a new soup's tapes hold, as a program. -/
def Fill.program : Fill → Program
  | .zero => .empty
  | .random => .noise

theorem Grid.newCell_eq (torus : Torus) (seed : UInt64) (fill : Fill) (i : Nat) :
    newCell torus seed fill i = fill.program.writeTo (Cell.fresh
      (Stream.ofPlace seed (UInt32.ofNat (torus.column i)) (UInt32.ofNat (torus.row i)))) := by
  cases fill <;> rfl

end TapeLife
