import TapeLife.Machine.Bracket
import TapeLife.Tape

/-!
# Machine/Basic — the tape machine and its step

A machine works on `n` bytes that are its program and its data.  The place of the next instruction
and both heads are places of the tape by type: heads wrap around at its ends, and the machine stops
when the instruction after the last one would be next.

`Machine.step` executes one instruction.  Where it writes is said apart (`Machine.target`), because a
run is judged by where its writes land.
-/

namespace TapeLife

/-- Why a machine stopped. -/
inductive Stop
  /-- It executed the halt instruction. -/
  | halted
  /-- It took a jump to a bracket that is not there. -/
  | unmatched
  /-- It executed the last byte of the tape and did not jump. -/
  | ranOff
deriving DecidableEq, Repr

/-- A machine at work on `n` bytes. -/
structure Machine (n : Nat) where
  memory : Vector UInt8 n
  /-- The place of the next instruction. -/
  place : Fin n
  /-- The data head. -/
  head0 : Fin n
  /-- The channel head. -/
  head1 : Fin n
  /-- The accumulator. -/
  acc : UInt8
  stream : Stream
deriving DecidableEq

namespace Machine

variable {n : Nat}

/-- The place to the left, around the end. -/
def leftOf (i : Fin n) : Fin n := ⟨(i.val + (n - 1)) % n, Nat.mod_lt _ i.pos⟩

/-- The place to the right, around the end. -/
def rightOf (i : Fin n) : Fin n := ⟨(i.val + 1) % n, Nat.mod_lt _ i.pos⟩

/-- The instruction that is next. -/
def instruction (m : Machine n) : Instruction := .ofByte m.memory[m.place]

/-- The byte under the data head. -/
def datum (m : Machine n) : UInt8 := m.memory[m.head0]

/-- The place that the next instruction writes, if it writes. -/
def target (m : Machine n) : Option (Fin n) :=
  match m.instruction with
  | .increment | .decrement | .copyIn | .store => some m.head0
  | .copyOut => some m.head1
  | _ => none

/-- Goes on to the instruction after `i`, unless the tape ends there. -/
def proceed (m : Machine n) (i : Fin n) : Machine n × Option Stop :=
  if h : i.val + 1 < n then ({ m with place := ⟨i.val + 1, h⟩ }, none) else (m, some .ranOff)

/-- Writes a byte at a place. -/
def write (m : Machine n) (i : Fin n) (byte : UInt8) : Machine n :=
  { m with memory := m.memory.set i byte }

/-- Executes one instruction: the machine afterwards, and why it stopped if it did. -/
def step (m : Machine n) : Machine n × Option Stop :=
  let here := m.place
  match m.instruction with
  | .head0Left => proceed { m with head0 := leftOf m.head0 } here
  | .head0Right => proceed { m with head0 := rightOf m.head0 } here
  | .head1Left => proceed { m with head1 := leftOf m.head1 } here
  | .head1Right => proceed { m with head1 := rightOf m.head1 } here
  | .increment => proceed (m.write m.head0 (m.datum + 1)) here
  | .decrement => proceed (m.write m.head0 (m.datum - 1)) here
  | .copyOut => proceed (m.write m.head1 m.datum) here
  | .copyIn => proceed (m.write m.head0 m.memory[m.head1]) here
  | .loopStart =>
    if m.datum = 0 then
      match closingPartner m.memory here with
      | some close => proceed m close
      | none => (m, some .unmatched)
    else proceed m here
  | .loopEnd =>
    if m.datum ≠ 0 then
      match openingPartner m.memory here with
      | some start => proceed m start
      | none => (m, some .unmatched)
    else proceed m here
  | .load => proceed { m with acc := m.datum } here
  | .store => proceed (m.write m.head0 m.acc) here
  | .random => proceed { m with acc := m.stream.byte.1, stream := m.stream.byte.2 } here
  | .halt => (m, some .halted)
  | .idle => proceed m here

end Machine

end TapeLife
