/-!
# Random/Mix — a scrambler of 64-bit words

`mix64` spreads every bit of a word over the whole word.  Each of its steps can be undone, so it is
a bijection: words that differ stay different.
-/

namespace TapeLife

/-- Adds an odd constant, then twice folds the high bits into the low ones and multiplies by an odd
constant, and folds once more. -/
def mix64 (word : UInt64) : UInt64 :=
  let z := (0x9e3779b97f4a7c15 : UInt64) + word
  let z := (0xbf58476d1ce4e5b9 : UInt64) * (z ^^^ (z >>> 30))
  let z := (0x94d049bb133111eb : UInt64) * (z ^^^ (z >>> 27))
  z ^^^ (z >>> 31)

/-- Two half words side by side in one word, `low` in the lower half. -/
def packHalves (low high : UInt64) : UInt64 := (high <<< 32) ||| low

/-- Turns the bits of a word to the left; the bits that leave at the top come back at the bottom. -/
def turnLeft (word count : UInt64) : UInt64 :=
  (word <<< count) ||| (word >>> (64 - count))

end TapeLife
