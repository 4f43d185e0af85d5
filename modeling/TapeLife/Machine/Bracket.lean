import TapeLife.Machine.Instruction

/-!
# Machine/Bracket — partner brackets on a tape

`closingPartner` and `openingPartner` scan away from a bracket and count how deep they are; the
bracket that brings the count to zero is the partner.  `Balanced` says the same thing without a
count: the bytes between two partners form a sequence of complete groups.
-/

namespace TapeLife

open Instruction (openByte closeByte)

/-- Bytes in which every bracket has a partner: other bytes anywhere, and groups in brackets. -/
inductive Balanced : List UInt8 → Prop
  | nil : Balanced []
  | other {b : UInt8} {rest : List UInt8} :
      b ≠ openByte → b ≠ closeByte → Balanced rest → Balanced (b :: rest)
  | group {inner rest : List UInt8} :
      Balanced inner → Balanced rest → Balanced (openByte :: inner ++ closeByte :: rest)

/-- The bytes strictly between two places. -/
def between (bytes : List UInt8) (first last : Nat) : List UInt8 :=
  (bytes.take last).drop (first + 1)

variable {n : Nat}

/-- Scans the last `left` bytes for the bracket that closes `depth + 1` open ones. -/
def closingFrom (bytes : Vector UInt8 n) :
    (left : Nat) → left ≤ n → (depth : Nat) → Option (Fin n)
  | 0, _, _ => none
  | left + 1, h, depth =>
    let here : Fin n := ⟨n - (left + 1), by omega⟩
    if bytes[here] = openByte then closingFrom bytes left (by omega) (depth + 1)
    else if bytes[here] = closeByte then
      match depth with
      | 0 => some here
      | depth + 1 => closingFrom bytes left (by omega) depth
    else closingFrom bytes left (by omega) depth

/-- The bracket that closes the one at `start`. -/
def closingPartner (bytes : Vector UInt8 n) (start : Fin n) : Option (Fin n) :=
  closingFrom bytes (n - (start + 1)) (by omega) 0

/-- Scans the first `left` bytes backwards for the bracket that opens `depth + 1` closed ones. -/
def openingBefore (bytes : Vector UInt8 n) :
    (left : Nat) → left ≤ n → (depth : Nat) → Option (Fin n)
  | 0, _, _ => none
  | left + 1, h, depth =>
    let here : Fin n := ⟨left, h⟩
    if bytes[here] = closeByte then openingBefore bytes left (by omega) (depth + 1)
    else if bytes[here] = openByte then
      match depth with
      | 0 => some here
      | depth + 1 => openingBefore bytes left (by omega) depth
    else openingBefore bytes left (by omega) depth

/-- The bracket that opens the one at `stop`. -/
def openingPartner (bytes : Vector UInt8 n) (stop : Fin n) : Option (Fin n) :=
  openingBefore bytes stop (by omega) 0

end TapeLife
