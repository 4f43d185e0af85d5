import TapeLife.Guarded.Basic
import TapeLife.Machine.Run

/-!
# Guarded/Machine — running the tape machine on words and arrays

The runs of `Machine/Run`, done as a machine does it: places and heads are plain words, kept on the
tape by a mask where they wrap, every byte is looked up in an array, and brackets are found by
counting up and down.  Every operation is checked, those of the tally included.
-/

namespace TapeLife

namespace Guarded

open Instruction (openByte closeByte)

/-! ## Brackets -/

/-- Goes to the right through bytes, the first of which is at `i`, for the bracket that brings the
count of open groups to zero. -/
def closingFrom : List UInt8 → (i depth : Nat) → Guarded (Option Nat)
  | [], _, _ => .ok none
  | byte :: bytes, i, depth => do
    let next ← add i 1
    if byte = openByte then closingFrom bytes next (← add depth 1)
    else if byte = closeByte then
      let depth ← sub depth 1
      if depth = 0 then return some i
      closingFrom bytes next depth
    else closingFrom bytes next depth

/-- The bracket that closes the one at `start`. -/
def closing (tape : Array UInt8) (start : Nat) : Guarded (Option Nat) := do
  let first ← add start 1
  closingFrom (tape.toList.drop first) first 1

/-- Goes to the left through the places below `i`, for the bracket that brings the count of open
groups to zero. -/
def openingBefore (tape : Array UInt8) : (i depth : Nat) → Guarded (Option Nat)
  | 0, _ => .ok none
  | i + 1, depth => do
    let byte ← read tape i
    if byte = closeByte then openingBefore tape i (← add depth 1)
    else if byte = openByte then
      let depth ← sub depth 1
      if depth = 0 then return some i
      openingBefore tape i depth
    else openingBefore tape i depth

/-- The bracket that opens the one at `stop`. -/
def opening (tape : Array UInt8) (stop : Nat) : Guarded (Option Nat) := openingBefore tape stop 1

/-! ## Steps -/

/-- A machine without promises: its places may be anywhere. -/
structure Core where
  tape : Array UInt8
  place : Nat
  head0 : Nat
  head1 : Nat
  acc : UInt8
  stream : Stream
  tally : Tally
deriving DecidableEq

namespace Core

def countStep (core : Core) : Guarded Core := do
  return { core with tally := { core.tally with steps := ← add core.tally.steps 1 } }

def countOp (core : Core) : Guarded Core := do
  return { core with tally := { core.tally with ops := ← add core.tally.ops 1 } }

def countWrite (core : Core) : Guarded Core := do
  let tally := { core.tally with channelWrites := ← add core.tally.channelWrites 1 }
  return { core with tally }

/-- Writes a byte at a place, and says where. -/
def store (core : Core) (i : Nat) (byte : UInt8) : Guarded (Core × Option Nat) := do
  return ({ core with tape := ← write core.tape i byte }, some i)

/-- What an instruction does that is neither a bracket nor the end of the run: the core afterwards,
and the place that was written. -/
def act (mask : Nat) (core : Core) : Instruction → Guarded (Core × Option Nat)
  | .head0Left =>
    .ok ({ core with head0 := (UInt64.ofNat core.head0 - 1).toNat &&& mask }, none)
  | .head0Right => do return ({ core with head0 := (← add core.head0 1) &&& mask }, none)
  | .head1Left =>
    .ok ({ core with head1 := (UInt64.ofNat core.head1 - 1).toNat &&& mask }, none)
  | .head1Right => do return ({ core with head1 := (← add core.head1 1) &&& mask }, none)
  | .increment => do core.store core.head0 ((← read core.tape core.head0) + 1)
  | .decrement => do core.store core.head0 ((← read core.tape core.head0) - 1)
  | .copyOut => do core.store core.head1 (← read core.tape core.head0)
  | .copyIn => do core.store core.head0 (← read core.tape core.head1)
  | .load => do return ({ core with acc := ← read core.tape core.head0 }, none)
  | .store => core.store core.head0 core.acc
  | .random => do
    let tally := { core.tally with randomDraws := ← add core.tally.randomDraws 1 }
    return ({ core with acc := core.stream.byte.1, stream := core.stream.byte.2, tally }, none)
  | .idle => do
    let tally := { core.tally with skipped := ← add core.tally.skipped 1 }
    return ({ core with tally }, none)
  | .loopStart | .loopEnd | .halt => .ok (core, none)

/-- Where a bracket leads: to itself if it is not taken, nowhere if it has no partner. -/
def jump (core : Core) : Instruction → Guarded (Option Nat)
  | .loopStart => do
    if (← read core.tape core.head0) = 0 then closing core.tape core.place
    else return some core.place
  | .loopEnd => do
    if (← read core.tape core.head0) ≠ 0 then opening core.tape core.place
    else return some core.place
  | _ => .ok (some core.place)

/-- Does an instruction at the core's place, counts it, and goes on to the next place: whether that
is on the tape. -/
def finish (mask : Nat) (core : Core) (op : Instruction) : Guarded (Core × Bool) := do
  let (core, written) ← core.act mask op
  let core ← if op = .idle then pure core else core.countOp
  let core ← if written.any (tapeSize ≤ ·) then core.countWrite else pure core
  let place ← add core.place 1
  return ({ core with place }, place < core.tape.size)

/-- Executes the next instruction, and says whether there is another. -/
def step (mask : Nat) (core : Core) : Guarded (Core × Bool) := do
  let core ← core.countStep
  let op := Instruction.ofByte (← read core.tape core.place)
  if op = .halt then
    let core ← core.countOp
    return ({ core with tally := { core.tally with halted := true } }, false)
  match ← core.jump op with
  | some place => finish mask { core with place } op
  | none => return (← core.countOp, false)

/-- Steps until the machine stops or the budget is spent. -/
def steps (mask : Nat) : (budget : Nat) → Core → Guarded Core
  | 0, core => .ok core
  | budget + 1, core => do
    let (core, more) ← core.step mask
    if more then steps mask budget core else return core

/-- Runs a tape from its first byte. -/
def run (budget : Nat) (tape : Array UInt8) (head1 : Nat) (stream : Stream) : Guarded Core := do
  let mask ← sub tape.size 1
  steps mask budget
    { tape, place := 0, head0 := 0, head1 := head1 &&& mask, acc := 0, stream, tally := {} }

end Core

/-! ## Cells -/

/-- Bytes of an array from one place to before another, if they fill a tape. -/
def tapeOf (bytes : Array UInt8) (start stop : Nat) : Guarded Tape :=
  if start ≤ stop ∧ stop ≤ bytes.size then
    let part := bytes.extract start stop
    if h : part.size = tapeSize then .ok ⟨part, h⟩ else .error .mismatch
  else .error .outOfRange

/-- Runs a cell on its own tape. -/
def runAlone (budget : Nat) (cell : Cell) : Guarded (Cell × Tally) := do
  let core ← Core.run budget cell.tape.toArray 0 cell.stream
  let tape ← tapeOf core.tape 0 core.tape.size
  return ({ cell with tape, stream := core.stream }, core.tally)

/-- Runs a cell on its tape joined to a neighbour's. -/
def runBeside (budget : Nat) (cell : Cell) (neighbour : Tape) : Guarded (Cell × Tape × Tally) := do
  let joined := cell.tape.toArray ++ neighbour.toArray
  let core ← Core.run budget joined tapeSize cell.stream
  let tape ← tapeOf core.tape 0 tapeSize
  let other ← tapeOf core.tape tapeSize core.tape.size
  return ({ cell with tape, stream := core.stream }, other, core.tally)

end Guarded

end TapeLife
