import TapeLife.Bytes.LittleEndian
import TapeLife.Random.Mix

/-!
# Random/Stream — a private source of random words

A `Stream` is one 64-bit state.  A draw reads a 32-bit word off the state (`Stream.output`) and
moves the state along an affine map modulo `2 ^ 64` (`Stream.step`); the two are kept apart, so the
period is a fact about iterates of `step` alone.  Wider and narrower draws are all said through
words: `words n` lists the next `n` of them, and `fill n` takes the bytes of just as many words as
it needs.
-/

namespace TapeLife

/-- The state of a source of random words. -/
structure Stream where
  state : UInt64
deriving DecidableEq, Repr

namespace Stream

/-- The state after one draw. -/
def step (s : Stream) : Stream :=
  ⟨1442695040888963407 + 6364136223846793005 * s.state⟩

/-- Turns the bits of a half word to the right; the bits that leave at the bottom come back at the
top. -/
def turnRight (word count : UInt32) : UInt32 :=
  (word >>> count) ||| (word <<< (32 - count))

/-- The word a state stands for: its upper bits folded together, turned by its top five bits. -/
def output (s : Stream) : UInt32 :=
  turnRight ((((s.state >>> 18) ^^^ s.state) >>> 27).toUInt32) (s.state >>> 59).toUInt32

/-- One draw: a word and the stream that follows. -/
def word (s : Stream) : UInt32 × Stream := (s.output, s.step)

/-- The stream after `n` draws. -/
def advance : Nat → Stream → Stream
  | 0, s => s
  | n + 1, s => advance n s.step

/-- The next `n` words. -/
def words : Nat → Stream → List UInt32
  | 0, _ => []
  | n + 1, s => s.output :: words n s.step

/-- A byte is the top quarter of one word. -/
def byte (s : Stream) : UInt8 × Stream := ((s.output >>> 24).toUInt8, s.step)

/-- A wide word takes two draws, the lower half first. -/
def wide (s : Stream) : UInt64 × Stream :=
  (packHalves s.output.toUInt64 s.step.output.toUInt64, s.step.step)

/-- The bytes of a word, least significant first. -/
def bytesOf (w : UInt32) : List UInt8 := littleEndian 4 w.toNat

/-- `n` bytes, four to a word; the bytes of the last word that do not fit are lost. -/
def fill : Nat → Stream → List UInt8 × Stream
  | 0, s => ([], s)
  | n + 4, s =>
    let rest := fill n s.step
    (bytesOf s.output ++ rest.1, rest.2)
  | n, s => ((bytesOf s.output).take n, s.step)

/-- The stream of the cell at column `x` and row `y` of a soup grown from `seed`. -/
def ofPlace (seed : UInt64) (x y : UInt32) : Stream :=
  ⟨mix64 (mix64 seed ^^^ packHalves x.toUInt64 y.toUInt64)⟩

@[simp] theorem length_bytesOf (w : UInt32) : (bytesOf w).length = 4 := length_littleEndian ..

theorem advance_add (m n : Nat) (s : Stream) : advance (m + n) s = advance n (advance m s) := by
  induction m generalizing s with
  | zero => rw [Nat.zero_add, advance]
  | succ m ih => rw [Nat.add_right_comm, advance, advance, ih]

@[simp] theorem length_fill (n : Nat) (s : Stream) : (fill n s).1.length = n := by
  fun_induction fill n s with
  | case1 => rfl
  | case2 n s rest ih =>
    simp only [List.length_append, length_bytesOf, rest, ih]
    omega
  | case3 n s h0 h4 =>
    have : n < 4 := Nat.lt_of_not_le fun h => h4 (n - 4) (by omega)
    simp only [List.length_take, length_bytesOf]; omega

end Stream

end TapeLife
