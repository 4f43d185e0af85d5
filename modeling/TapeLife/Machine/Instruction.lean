/-!
# Machine/Instruction — what a byte on the tape means

Fourteen bytes are instructions; every other byte, zero included, does nothing
(`Instruction.ofByte`).
-/

namespace TapeLife

/-- One instruction of the tape machine. -/
inductive Instruction
  /-- Move the data head left. -/
  | head0Left
  /-- Move the data head right. -/
  | head0Right
  /-- Move the channel head left. -/
  | head1Left
  /-- Move the channel head right. -/
  | head1Right
  /-- Add one at the data head. -/
  | increment
  /-- Take one away at the data head. -/
  | decrement
  /-- Copy from the data head to the channel head. -/
  | copyOut
  /-- Copy from the channel head to the data head. -/
  | copyIn
  /-- Skip past the closing partner if the data head is on zero. -/
  | loopStart
  /-- Go back to the opening partner unless the data head is on zero. -/
  | loopEnd
  /-- Read the data head into the accumulator. -/
  | load
  /-- Write the accumulator at the data head. -/
  | store
  /-- Draw a random byte into the accumulator. -/
  | random
  /-- Stop. -/
  | halt
  /-- Do nothing. -/
  | idle
deriving DecidableEq, Repr

namespace Instruction

/-- The byte that opens a loop. -/
abbrev openByte : UInt8 := 0x5b

/-- The byte that closes a loop. -/
abbrev closeByte : UInt8 := 0x5d

/-- The meaning of a byte. -/
def ofByte (byte : UInt8) : Instruction :=
  if byte = 0x3c then head0Left
  else if byte = 0x3e then head0Right
  else if byte = 0x7b then head1Left
  else if byte = 0x7d then head1Right
  else if byte = 0x2b then increment
  else if byte = 0x2d then decrement
  else if byte = 0x2e then copyOut
  else if byte = 0x2c then copyIn
  else if byte = openByte then loopStart
  else if byte = closeByte then loopEnd
  else if byte = 0x28 then load
  else if byte = 0x29 then store
  else if byte = 0x3f then random
  else if byte = 0x21 then halt
  else idle

/-- Whether a byte does anything when it is executed. -/
def isActive (byte : UInt8) : Bool := ofByte byte != idle

/-- The listing character of a byte: itself if it does anything, a middle dot if not. -/
def glyph (byte : UInt8) : Char :=
  if isActive byte then Char.ofNat byte.toNat else '·'

/-- Bytes as a listing of their instructions. -/
def listing (bytes : List UInt8) : String := String.ofList (bytes.map glyph)

end Instruction

end TapeLife
