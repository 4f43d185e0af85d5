import TapeLife.Random.Stream

/-!
# Tape — sixty-four bytes that are program and data at once

A tape has a fixed length, so it is a vector.  Text and byte lists of any length become tapes by
cutting or by padding with zeros (`Tape.ofBytes`).
-/

namespace TapeLife

/-- Bytes on a tape. -/
abbrev tapeSize : Nat := 64

/-- The private memory of one cell. -/
abbrev Tape := Vector UInt8 tapeSize

namespace Tape

/-- The tape of zeros. -/
def blank : Tape := Vector.replicate tapeSize 0

/-- The first bytes of a list; a short list is padded with zeros. -/
def ofBytes (bytes : List UInt8) : Tape :=
  let source := bytes.toArray
  Vector.ofFn fun i => source.getD i 0

/-- The bytes of a text in UTF-8, cut or padded. -/
def ofText (text : String) : Tape := ofBytes text.toUTF8.toList

/-- Whether every byte is zero. -/
def isBlank (tape : Tape) : Bool := tape.all (· == 0)

theorem getElem_ofBytes (bytes : List UInt8) (i : Nat) (h : i < tapeSize) :
    (ofBytes bytes)[i] = bytes.getD i 0 := by
  simp [ofBytes, Array.getD_eq_getD_getElem?, List.getD_eq_getElem?_getD]

/-- A list of the right length is kept as it is. -/
theorem toList_ofBytes {bytes : List UInt8} (h : bytes.length = tapeSize) :
    (ofBytes bytes).toList = bytes := by
  apply List.ext_getElem
  · simp [h]
  · intro i h₁ h₂
    have hi : i < tapeSize := by simpa using h₁
    simp [getElem_ofBytes bytes i hi, List.getD_eq_getElem?_getD, h₂]

@[simp] theorem ofBytes_toList (tape : Tape) : ofBytes tape.toList = tape := by
  ext i h
  rw [getElem_ofBytes _ _ h]
  have : i < tape.toList.length := by simpa using h
  simp [List.getD_eq_getElem?_getD, List.getElem?_eq_getElem this]

end Tape

end TapeLife
