import TapeLife.Bytes.LittleEndian
import TapeLife.Grid.Error

/-!
# Saved/Header — the first bytes of a saved soup

Four marks, a version, the size and epoch, and all parameters, the size among them once more: 47
bytes, numbers with their least significant byte first.  `Header.encode` writes any header,
`Header.decode` reads one off the front of a list of bytes and leaves the rest.  Whether a header
describes a soup that can be loaded is a question of its own (`Header.fault?`).
-/

namespace TapeLife

/-- What stands before the cells of a saved soup. -/
structure Header where
  width : UInt32
  height : UInt32
  epoch : UInt32
  params : Params
deriving DecidableEq, Repr

/-- A reader takes a value off the front of a list of bytes. -/
abbrev Reader (α : Type) := StateT (List UInt8) (Except FormatError) α

namespace Reader

/-- The next `n` bytes. -/
def take (n : Nat) : Reader (List UInt8) := fun bytes =>
  if bytes.length < n then .error .truncatedHeader else .ok (bytes.take n, bytes.drop n)

/-- A number of `n` bytes. -/
def number (n : Nat) : Reader Nat := do return ofLittleEndian (← take n)

/-- A number of four bytes. -/
def word : Reader UInt32 := do return UInt32.ofNat (← number 4)

/-- A number of eight bytes. -/
def wide : Reader UInt64 := do return UInt64.ofNat (← number 8)

end Reader

/-- A flag is a byte that is zero or one. -/
def flagOf (field : String) (byte : UInt8) : Except FormatError Bool :=
  if byte = 0 then .ok false
  else if byte = 1 then .ok true
  else .error (.badFlag field byte)

/-- The byte of a flag. -/
def flagByte (flag : Bool) : UInt8 := if flag then 1 else 0

namespace Header

/-- The marks at the very front. -/
def magic : List UInt8 := [0x42, 0x46, 0x53, 0x57]

/-- The version of the format. -/
def version : Nat := 1

/-- Bytes in a header. -/
def size : Nat := 47

/-- The bytes of parameters. -/
def encodeParams (p : Params) : List UInt8 :=
  littleEndian 8 p.seed.toNat ++ [flagByte p.fixedShuffle]
    ++ littleEndian 4 p.maxSteps.toNat ++ littleEndian 4 p.maxDist.toNat
    ++ littleEndian 4 p.rate.bits.toNat
    ++ littleEndian 4 p.width.toNat ++ littleEndian 4 p.height.toNat

/-- The bytes of a header. -/
def encode (h : Header) : List UInt8 :=
  magic ++ littleEndian 2 version
    ++ littleEndian 4 h.width.toNat ++ littleEndian 4 h.height.toNat ++ littleEndian 4 h.epoch.toNat
    ++ encodeParams h.params

/-- Reads parameters. -/
def readParams : Reader Params := do
  let seed ← Reader.wide
  let fixedShuffle ← flagOf "fixed_shuffle" (UInt8.ofNat (← Reader.number 1))
  let maxSteps ← Reader.word
  let maxDist ← Reader.word
  let rate ← Reader.word
  let width ← Reader.word
  let height ← Reader.word
  return { seed, fixedShuffle, maxSteps, maxDist, rate := ⟨rate⟩, width, height }

/-- Reads a header. -/
def read : Reader Header := do
  if (← Reader.take 4) ≠ magic then throw .badMagic
  let found ← Reader.number 2
  if found ≠ version then throw (.unsupportedVersion found)
  let width ← Reader.word
  let height ← Reader.word
  let epoch ← Reader.word
  let params ← readParams
  return { width, height, epoch, params }

/-- The header at the front of a list of bytes, and the bytes after it. -/
def decode (bytes : List UInt8) : Except FormatError (Header × List UInt8) := read.run bytes

/-- The first thing that keeps the header from describing a soup. -/
def fault? (h : Header) : Option FormatError :=
  if h.width ≠ h.params.width ∨ h.height ≠ h.params.height then
    some (.dimensionsDisagree h.width h.height h.params.width h.params.height)
  else h.params.fault?.map .invalidParams

end Header

end TapeLife
