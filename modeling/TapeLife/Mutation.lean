import TapeLife.Cell
import TapeLife.Number.Single

/-!
# Mutation — background replacement of tape bytes

Every byte costs one word of the cell's stream.  The low byte of the word is the replacement, and
its upper twenty-four bits decide: the byte is replaced when they are below the threshold of the
rate.  So a rate is a whole number of chances in `2 ^ 24` (`mutationThreshold`), and the stream
moves on equally whatever the rate is.
-/

namespace TapeLife

/-- The number of values that decide about a replacement: twenty-four bits. -/
abbrev mutationScale : Nat := 0x1000000

/-- The chances in `2 ^ 24` that are nearest to a rate, a half counted up: none for rates that are
undefined or not above zero, all for rates from one on. -/
def mutationThreshold (rate : Single) : Nat :=
  match rate.value with
  | .nan => 0
  | .infinite negative => if negative then 0 else mutationScale
  | .finite negative mantissa exponent =>
    if negative then 0
    else
      let ratio := Binary.scaleRatio (mantissa * mutationScale) 1 exponent
      min mutationScale (roundRatio ratio.1 ratio.2 .up)

/-- The outcome of a mutation pass. -/
structure Mutated where
  bytes : List UInt8
  stream : Stream
  /-- Replacements made, counting those that wrote the byte already there. -/
  count : Nat

/-- Replaces each byte whose word falls below the threshold. -/
def mutate (threshold : Nat) : List UInt8 → Stream → Mutated
  | [], s => ⟨[], s, 0⟩
  | b :: bs, s =>
    let draw := s.output
    let rest := mutate threshold bs s.step
    if (draw >>> 8).toNat < threshold then
      ⟨draw.toUInt8 :: rest.bytes, rest.stream, rest.count + 1⟩
    else ⟨b :: rest.bytes, rest.stream, rest.count⟩

/-- **One word for every byte**, whatever the threshold. -/
theorem stream_mutate (threshold : Nat) (bs : List UInt8) (s : Stream) :
    (mutate threshold bs s).stream = s.advance bs.length := by
  induction bs generalizing s with
  | nil => rfl
  | cons b bs ih => simp only [mutate]; split <;> simp [ih, Stream.advance]

theorem count_mutate_le (threshold : Nat) (bs : List UInt8) (s : Stream) :
    (mutate threshold bs s).count ≤ bs.length := by
  induction bs generalizing s with
  | nil => exact Nat.le_refl 0
  | cons b bs ih =>
    have hrest := ih s.step
    simp only [mutate, List.length_cons]
    split
    · exact Nat.succ_le_succ hrest
    · exact Nat.le_succ_of_le hrest

/-- No chance, no replacement. -/
theorem count_mutate_zero (bs : List UInt8) (s : Stream) : (mutate 0 bs s).count = 0 := by
  induction bs generalizing s with
  | nil => rfl
  | cons b bs ih =>
    simp only [mutate, Nat.not_lt_zero, if_false]
    exact ih s.step

/-- **With all chances every byte is replaced.** -/
theorem count_mutate_scale (bs : List UInt8) (s : Stream) :
    (mutate mutationScale bs s).count = bs.length := by
  induction bs generalizing s with
  | nil => rfl
  | cons b bs ih =>
    have hdraw : (s.output >>> 8).toNat < mutationScale := by
      have hshift : (s.output >>> 8).toNat = s.output.toNat / 256 :=
        (UInt32.toNat_shiftRight _ _).trans (Nat.shiftRight_eq_div_pow _ 8)
      rw [hshift]
      exact Nat.div_lt_of_lt_mul s.output.toNat_lt
    simp only [mutate, if_pos hdraw, List.length_cons, ih s.step]

/-- Mutates the tape of a cell with the cell's own stream; also the number of replacements. -/
def Cell.mutate (threshold : Nat) (cell : Cell) : Cell × Nat :=
  let m := TapeLife.mutate threshold cell.tape.toList cell.stream
  ({ cell with tape := Tape.ofBytes m.bytes, stream := m.stream }, m.count)

end TapeLife
