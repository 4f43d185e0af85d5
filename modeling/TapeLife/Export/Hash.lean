/-!
# Export/Hash — a sixty-four-bit hash of bytes

Every byte is folded into the hash, and the hash is then multiplied by an odd number.  Both can be
undone, so two hashes that differ stay different whatever follows.
-/

namespace TapeLife

/-- The hash before the first byte. -/
def hashStart : UInt64 := 1469598103934665603

/-- Folds one byte into a hash. -/
def hashByte (hash : UInt64) (byte : UInt8) : UInt64 :=
  (1099511628211 : UInt64) * (hash ^^^ byte.toUInt64)

/-- The hash of bytes. -/
def hash64 (bytes : List UInt8) : UInt64 := bytes.foldl hashByte hashStart

end TapeLife
