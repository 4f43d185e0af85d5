import TapeLife.Decimal.Reading
import TapeLife.Number.Single

/-!
# Yaml/Scalar — what plain text stands for

Plain text may stand for nothing, a truth value, a whole number in one of four bases, or a
floating-point number.  Digits after a leading zero are none of these.
-/

namespace TapeLife.Yaml

/-- Whether a text stands for nothing. -/
def isNull (text : String) : Bool := ["", "~", "null", "Null", "NULL"].contains text

/-- The truth value that a text stands for. -/
def bool? (text : String) : Option Bool :=
  if ["true", "True", "TRUE"].contains text then some true
  else if ["false", "False", "FALSE"].contains text then some false
  else none

/-- Whether a list starts with a sign. -/
def startsSigned : List Char → Bool
  | c :: _ => c == '+' || c == '-'
  | [] => false

/-- Whether a text, after at most one sign, is a zero followed by more digits and nothing else. -/
def isPaddedDigits (cs : List Char) : Bool :=
  let body := if startsSigned cs then cs.drop 1 else cs
  match body with
  | '0' :: more => more != [] && more.all isDecimalDigit
  | _ => false

/-- The value of a digit in bases up to sixteen, either case. -/
def digitValue? (c : Char) : Option Nat :=
  if '0' ≤ c && c ≤ '9' then some (c.toNat - 48)
  else if 'a' ≤ c && c ≤ 'f' then some (c.toNat - 87)
  else if 'A' ≤ c && c ≤ 'F' then some (c.toNat - 55)
  else none

/-- A non-empty run of digits of a base. -/
def radix? (base : Nat) (cs : List Char) : Option Nat :=
  if cs = [] then none
  else cs.foldl (fun sum c => do
    let sum ← sum
    let digit ← digitValue? c
    if digit < base then some (sum * base + digit) else none) (some 0)

/-- A natural number after its base mark, or in base ten without one. -/
def magnitude? : List Char → Option Nat
  | '0' :: 'x' :: cs => radix? 16 cs
  | '0' :: 'o' :: cs => radix? 8 cs
  | '0' :: 'b' :: cs => radix? 2 cs
  | cs => if isPaddedDigits cs then none else radix? 10 cs

/-- A natural number: at most one plus sign, then a magnitude. -/
def natural? : List Char → Option Nat
  | '+' :: cs => magnitude? cs
  | cs => magnitude? cs

/-- A whole number: at most one sign, then a magnitude. -/
def whole? : List Char → Option Int
  | '-' :: cs => (magnitude? cs).map fun n => -(n : Int)
  | cs => (natural? cs).map fun n => (n : Int)

/-- A floating-point number of sixty-four bits.  Infinities and undefined numbers begin with a
point, and a decimal beyond the finite numbers is none. -/
def double? (cs : List Char) : Option Binary :=
  let unsigned := match cs with
    | '+' :: rest => rest
    | _ => cs
  if cs != unsigned && startsSigned unsigned then none
  else if [".inf", ".Inf", ".INF"].contains (String.ofList unsigned) then some (.infinite false)
  else if ["-.inf", "-.Inf", "-.INF"].contains (String.ofList cs) then some (.infinite true)
  else if [".nan", ".NaN", ".NAN"].contains (String.ofList cs) then some .nan
  else (readBinary? .double unsigned).filter Binary.isFinite

/-- Whole numbers are read as such from minus this on, and up to twice as much: they have 128 bits,
with or without sign. -/
def leastWhole : Int := 0x80000000000000000000000000000000

/-- Whether a text, written plainly, would be read as something else than itself. -/
def isAmbiguous (text : String) : Bool :=
  let cs := text.toList
  isNull text || (bool? text).isSome
    || (whole? cs).any (fun n => -leastWhole ≤ n && n < 2 * leastWhole)
    || isPaddedDigits cs || (double? cs).isSome

end TapeLife.Yaml
