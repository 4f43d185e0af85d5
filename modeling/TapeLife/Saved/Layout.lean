import TapeLife.Saved.Soup

/-!
# Saved/Layout — a saved soup by the places of its bytes

    0    4  6      10      14     18    26  27     31    35    39     43      47
    marks v  width  height  epoch  seed  fix steps  dist  rate  width  height  records …

The format as a table: which field stands at which byte, whatever stands elsewhere.  A record of 73
bytes follows for every cell, with its flag first.  `Layout` says when bytes are a saved soup
without reading one field after another; whether the readers of `Saved/Header` and `Saved/Soup`
accept just these bytes is a question about them.
-/

namespace TapeLife

/-- The number in `length` bytes from a place on, least significant byte first. -/
def numberAt (bytes : List UInt8) (place length : Nat) : Nat :=
  ofLittleEndian ((bytes.drop place).take length)

/-- A byte that is zero or one stands at a place. -/
def HasFlagAt (bytes : List UInt8) (place : Nat) : Prop :=
  bytes[place]? = some 0 ∨ bytes[place]? = some 1

namespace Header

/-- The header whose fields stand at the places of the format. -/
def ofPlaces (bytes : List UInt8) : Header where
  width := UInt32.ofNat (numberAt bytes 6 4)
  height := UInt32.ofNat (numberAt bytes 10 4)
  epoch := UInt32.ofNat (numberAt bytes 14 4)
  params :=
    { seed := UInt64.ofNat (numberAt bytes 18 8)
      fixedShuffle := bytes[26]? == some 1
      maxSteps := UInt32.ofNat (numberAt bytes 27 4)
      maxDist := UInt32.ofNat (numberAt bytes 31 4)
      rate := ⟨UInt32.ofNat (numberAt bytes 35 4)⟩
      width := UInt32.ofNat (numberAt bytes 39 4)
      height := UInt32.ofNat (numberAt bytes 43 4) }

/-- Bytes that start with a header of this format and version, whatever it describes. -/
structure Leads (bytes : List UInt8) : Prop where
  length_le : 47 ≤ bytes.length
  magic : bytes.take 4 = ['B', 'F', 'S', 'W'].map fun mark => UInt8.ofNat mark.toNat
  version : numberAt bytes 4 2 = 1
  fixedShuffle : HasFlagAt bytes 26

end Header

/-- Bytes that are laid out as a saved soup. -/
structure Layout (bytes : List UInt8) : Prop extends Header.Leads bytes where
  width_eq : (Header.ofPlaces bytes).width = (Header.ofPlaces bytes).params.width
  height_eq : (Header.ofPlaces bytes).height = (Header.ofPlaces bytes).params.height
  fault?_eq : (Header.ofPlaces bytes).params.fault? = none
  /-- Nothing is missing and nothing follows. -/
  length_eq : bytes.length
    = 47 + (Header.ofPlaces bytes).width.toNat * (Header.ofPlaces bytes).height.toNat * 73
  /-- The first byte of every record. -/
  locked : ∀ i < (Header.ofPlaces bytes).width.toNat * (Header.ofPlaces bytes).height.toNat,
    HasFlagAt bytes (47 + i * 73)

end TapeLife
