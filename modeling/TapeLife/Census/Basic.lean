import TapeLife.Decimal.Fixed
import TapeLife.Grid.Basic
import TapeLife.Machine.Instruction

/-!
# Census/Basic — counting what is on the tapes

A `Census` counts the bytes of all tapes, the blank tapes, and the instructions on tapes that are
not blank.  All of these are whole numbers that do not depend on the order of the cells; shares and
entropy are computed from them.
-/

namespace TapeLife

/-- How often each byte value occurs. -/
abbrev ByteCounts := Vector Nat 256

namespace ByteCounts

/-- One more occurrence of a byte. -/
def add (counts : ByteCounts) (byte : UInt8) : ByteCounts :=
  counts.set byte.toNat (counts.get ⟨byte.toNat, byte.toNat_lt⟩ + 1) byte.toNat_lt

/-- The counts of a list of bytes. -/
def ofBytes (bytes : List UInt8) : ByteCounts := bytes.foldl add (Vector.replicate 256 0)

/-- The bytes that occur, with their counts, from the smallest byte up. -/
def present (counts : ByteCounts) : List (UInt8 × Nat) :=
  counts.toList.zipIdx.filterMap fun (count, byte) =>
    if count = 0 then none else some (UInt8.ofNat byte, count)

/-- Whether the first entry is listed before the second: more often, or as often and smaller. -/
def ranksBefore (a b : UInt8 × Nat) : Bool := b.2 < a.2 || (a.2 == b.2 && a.1 ≤ b.1)

end ByteCounts

/-- The counts of one soup. -/
structure Census where
  epoch : UInt32
  counts : ByteCounts
  /-- Tapes of zeros only. -/
  emptyTapes : Nat
  totalTapes : Nat
  /-- Instruction bytes on tapes that are not blank. -/
  liveInstructions : Nat

/-- The tapes that are not blank, one after another. -/
def Grid.liveBytes (g : Grid) : List UInt8 :=
  (g.cells.toList.filter fun cell => !cell.isBlank).flatMap fun cell => cell.tape.toList

namespace Census

/-- Takes the census of a soup. -/
def ofGrid (g : Grid) : Census :=
  { epoch := g.epoch
    counts := .ofBytes (g.cells.toList.flatMap fun cell => cell.tape.toList)
    emptyTapes := g.cells.countP Cell.isBlank
    totalTapes := g.cells.size
    liveInstructions := g.liveBytes.countP Instruction.isActive }

/-- Tapes that are not blank. -/
def liveTapes (c : Census) : Nat := c.totalTapes - c.emptyTapes

/-- Different byte values on all tapes. -/
def uniqueBytes (c : Census) : Nat := c.counts.present.length

/-- Bytes on all tapes. -/
def totalBytes (c : Census) : Nat := c.counts.toList.foldl (· + ·) 0

/-- The number of bytes listed as the most frequent ones. -/
def topSize : Nat := 8

/-- The most frequent bytes, the most frequent first and of equals the smallest. -/
def topBytes (c : Census) : List (UInt8 × Nat) :=
  (c.counts.present.mergeSort ByteCounts.ranksBefore).take topSize

/-- A share of a whole; of nothing it is zero. -/
def share (part whole : Nat) : Float :=
  if whole = 0 then 0 else Float.ofNat part / Float.ofNat whole

/-- The share of instructions on tapes that are not blank. -/
def instructionFraction (c : Census) : Float := share c.liveInstructions (tapeSize * c.liveTapes)

/-- The share of zero bytes on all tapes. -/
def zeroFraction (c : Census) : Float := share c.counts[0] c.totalBytes

/-- The entropy of the byte values in bits: every value adds its share times the number of bits
that its share is worth. -/
def entropy (c : Census) : Float :=
  c.counts.present.foldl (fun sum (_, count) =>
    let p := share count c.totalBytes
    sum + p * (1 / p).log2) 0

/-- A byte in a report: a visible character in quotes, or two hexadecimal digits. -/
def byteLabel (byte : UInt8) : String :=
  if 0x21 ≤ byte ∧ byte ≤ 0x7e then String.ofList ['\x27', Char.ofNat byte.toNat, '\x27']
  else "0x" ++ String.ofList [Nat.digitChar (byte.toNat / 16), Nat.digitChar (byte.toNat % 16)]

/-- The most frequent bytes with their counts. -/
def topText (c : Census) : String :=
  " ".intercalate (c.topBytes.map fun (byte, count) => s!"{byteLabel byte}:{count}")

end Census

end TapeLife
