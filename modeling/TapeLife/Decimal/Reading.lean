import TapeLife.Decimal.Basic

/-!
# Decimal/Reading — numbers from text

A decimal numeral is digits, a point with digits on at least one side, and a power of ten.  Its
value is exact until it is rounded once to the format asked for.  Whole numbers are digits with an
optional plus sign.
-/

namespace TapeLife

/-- Whether a character is one of the ten digits. -/
def isDecimalDigit (c : Char) : Bool := '0' ≤ c && c ≤ '9'

/-- A non-empty run of digits as a number. -/
def readDigits? (cs : List Char) : Option Nat :=
  if cs ≠ [] ∧ cs.all isDecimalDigit then some (Nat.ofDigitChars 10 cs 0) else none

/-- A natural number: digits after at most one plus sign. -/
def readNatural? : List Char → Option Nat
  | '+' :: cs => readDigits? cs
  | cs => readDigits? cs

/-- A whole number: digits after at most one sign. -/
def readWhole? : List Char → Option Int
  | '-' :: cs => (readDigits? cs).map fun n => -(n : Int)
  | cs => (readNatural? cs).map fun n => (n : Int)

namespace Decimal

/-- The power of ten after the mark: a whole number, or nothing at all where there is no mark. -/
def readExponent? : List Char → Option Int
  | [] => some 0
  | c :: cs => if c = 'e' ∨ c = 'E' then readWhole? cs else none

/-- A numeral without sign: digits, perhaps a point and digits, perhaps a power of ten. -/
def read? (cs : List Char) : Option Decimal :=
  let front := cs.takeWhile isDecimalDigit
  let rest := cs.dropWhile isDecimalDigit
  let (behind, tail) :=
    match rest with
    | '.' :: more => (more.takeWhile isDecimalDigit, more.dropWhile isDecimalDigit)
    | _ => ([], rest)
  if front = [] ∧ behind = [] then none
  else
    (readExponent? tail).map fun power =>
      ⟨Nat.ofDigitChars 10 (front ++ behind) 0, power - behind.length⟩

/-- The number of a format nearest to a decimal.  A first digit beyond `10 ^ 400`, or below
`10 ^ -400`, is beyond the range of every format used here, so the power is not computed. -/
def toBinary (f : BinaryFormat) (negative : Bool) (d : Decimal) : Binary :=
  if d.significand = 0 ∨ d.scale < -400 then .finite negative 0 f.leastExponent
  else if 400 < d.scale then .infinite negative
  else if 0 ≤ d.exponent then .ofRatio f negative (d.significand * Nat.pow 10 d.exponent.toNat) 1
  else .ofRatio f negative d.significand (Nat.pow 10 (-d.exponent).toNat)

end Decimal

/-- Whether a text is a given word, in capital or small letters. -/
def isWord (word : String) (cs : List Char) : Bool := cs.map Char.toLower = word.toList

/-- An unsigned number: a numeral, an infinity, or an undefined number. -/
def readMagnitude? (f : BinaryFormat) (negative : Bool) (cs : List Char) : Option Binary :=
  if isWord "inf" cs || isWord "infinity" cs then some (.infinite negative)
  else if isWord "nan" cs then some .nan
  else (Decimal.read? cs).map (·.toBinary f negative)

/-- A number of a format after at most one sign. -/
def readBinary? (f : BinaryFormat) : List Char → Option Binary
  | '-' :: cs => readMagnitude? f true cs
  | '+' :: cs => readMagnitude? f false cs
  | cs => readMagnitude? f false cs

end TapeLife
