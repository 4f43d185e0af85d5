import TapeLife.Grid.Basic
import TapeLife.Saved.Header

/-!
# Saved/Soup — a whole soup as bytes

A header and one record of 73 bytes for every cell: its lock, its tape, its stream.  `Grid.save`
writes every grid; `Grid.ofSaved` checks the header against the number of bytes that follow before
it reads a single cell, and gives a grid only if every record is in order.
-/

namespace TapeLife

/-- Bytes in the record of a cell. -/
abbrev recordSize : Nat := 1 + tapeSize + 8

/-- The record of a cell. -/
def Cell.record (cell : Cell) : List UInt8 :=
  flagByte cell.locked :: cell.tape.toList ++ littleEndian 8 cell.stream.state.toNat

/-- The cell of a record. -/
def Cell.ofRecord (record : List UInt8) : Except FormatError Cell := do
  let locked ← flagOf "locked" (record.headD 0)
  let body := record.drop 1
  return { locked
           tape := Tape.ofBytes (body.take tapeSize)
           stream := ⟨UInt64.ofNat (ofLittleEndian (body.drop tapeSize))⟩ }

/-- The cells of `count` records. -/
def Cell.ofRecords : (count : Nat) → List UInt8 → Except FormatError (List Cell)
  | 0, _ => .ok []
  | count + 1, bytes => do
    let cell ← Cell.ofRecord (bytes.take recordSize)
    return cell :: (← Cell.ofRecords count (bytes.drop recordSize))

/-- The number of bytes after a header, if sixty-four bits can count it. -/
def Header.payloadSize? (h : Header) : Option Nat :=
  let size := h.width.toNat * h.height.toNat * recordSize
  if size < UInt64.size then some size else none

namespace Grid

/-- The header of a soup. -/
def header (g : Grid) : Header :=
  { width := g.params.width, height := g.params.height, epoch := g.epoch, params := g.params }

/-- The bytes of a soup. -/
def save (g : Grid) : List UInt8 := g.header.encode ++ g.cells.toList.flatMap Cell.record

/-- The header and the cells in saved bytes. -/
def parts (bytes : List UInt8) : Except FormatError (Header × List Cell) := do
  let (header, payload) ← Header.decode bytes
  match header.fault? with
  | some cause => throw cause
  | none =>
    match header.payloadSize? with
    | none => throw .sizeOverflow
    | some expected =>
      if payload.length ≠ expected then
        throw (.wrongPayload expected header.width header.height payload.length)
      else
        return (header, ← Cell.ofRecords (header.width.toNat * header.height.toNat) payload)

/-- The soup in saved bytes. -/
def ofSaved (bytes : List UInt8) : Except SoupError Grid :=
  match parts bytes with
  | .error cause => .error (.format cause)
  | .ok (header, cells) => assemble header.params header.epoch cells.toArray

/-- Replaces a soup by the one in saved bytes; a failure leaves it as it is. -/
def load (g : Grid) (bytes : List UInt8) : Grid × Option SoupError :=
  match ofSaved bytes with
  | .ok loaded => (loaded, none)
  | .error cause => (g, some cause)

/-- Replaces a soup by the one in a file. -/
def loadFrom (g : Grid) (tree : FileTree) (path : Path) : Grid × Option SoupError :=
  match tree.read path with
  | .ok bytes => g.load bytes
  | .error cause => (g, some (.file cause))

/-- Writes a soup to a file, and makes the directories above it that are missing. -/
def saveTo (g : Grid) (tree : FileTree) (path : Path) : FileTree × Option SoupError :=
  let (tree, failure) := tree.writeDeep path g.save
  (tree, failure.map .file)

end Grid

end TapeLife
