import TapeLife.Decimal.Shortest
import TapeLife.Yaml.Character
import TapeLife.Yaml.Scalar

/-!
# Yaml/Writer — text that reads back as the same string

A string is written as plainly as it can be: without quotes if it reads back as itself, else between
single quotes, and between double quotes if it holds something that needs an escape.  A string of
several lines takes whole lines (`stringText`).
-/

namespace TapeLife.Yaml

/-- The number of columns of one level of a document. -/
def indentStep : Nat := 2

/-- Numbers in documents keep a place behind the point, have an exponent outside `10 ^ -6` to
`10 ^ 12`, and end in an even digit where two texts are equally near. -/
def numberStyle : NumberStyle :=
  { tie := .even, isPositional := fun e => -6 ≤ e && e ≤ 12, wholeEnd := ".0"
    nan := ".nan", infinity := ".inf" }

/-- The forms of a string in a document. -/
inductive Form
  | plain
  | single
  | double
  | literal
deriving DecidableEq, Repr

/-- Whether a mark stands anywhere in a text where it would end a plain string: a colon before
something blank, or a comment mark after it. -/
def hasInnerMark : List Char → Bool
  | [] => false
  | ':' :: cs => startsBlank cs || hasInnerMark cs
  | c :: '#' :: cs => isBlank c || isBreak c || c == '\x00' || hasInnerMark ('#' :: cs)
  | _ :: cs => hasInnerMark cs

/-- Whether a text starts like something else than a plain string. -/
def hasLeadingMark (cs : List Char) : Bool :=
  match cs with
  | [] => false
  | c :: more =>
    indicators.contains c
      || ((c == '?' || c == ':' || c == '-') && (startsBlank more || more.head? == some '\x00'))
      || ['-', '-', '-'].isPrefixOf cs || ['.', '.', '.'].isPrefixOf cs

/-- Whether a character of one kind is directly followed by one of another. -/
def hasAdjacent (first second : Char → Bool) (cs : List Char) : Bool :=
  (cs.zip (cs.drop 1)).any fun (a, b) => first a && second b

/-- Whether a string can only be written with escapes. -/
def needsEscapes (cs : List Char) : Bool :=
  cs.any (fun c => !isPlainlyWritten c) || hasAdjacent (· == ' ') isBreak cs

/-- The form that a string is written in. -/
def formOf (text : String) : Form :=
  let cs := text.toList
  let outer := fun c : Char => c == ' ' || isBreak c
  if needsEscapes cs then .double
  else if cs.contains '\n' then
    if cs.getLast? == some ' ' then .double else .literal
  else if hasAdjacent isBreak (· == ' ') cs then .double
  else if isAmbiguous text || cs.head?.any outer || cs.getLast?.any outer || cs.any isBreak
      || hasLeadingMark cs || hasInnerMark cs then .single
  else .plain

/-- A number in hexadecimal digits, as many as are asked for. -/
def hexText (width n : Nat) : List Char :=
  let ds := (Nat.toDigits 16 n).map Char.toUpper
  List.replicate (width - ds.length) '0' ++ ds

/-- The characters that have an escape of one letter. -/
def letterEscape? (c : Char) : Option Char :=
  [('\x00', '0'), ('\x07', 'a'), ('\x08', 'b'), ('\t', 't'), ('\n', 'n'), ('\x0b', 'v'),
    ('\x0c', 'f'), ('\r', 'r'), ('\x1b', 'e'), ('\x22', '\x22'), ('\x5c', '\x5c'),
    ('\u0085', 'N'), ('\u2028', 'L'), ('\u2029', 'P')].lookup c

/-- A character between double quotes. -/
def escapeChar (c : Char) : List Char :=
  match letterEscape? c with
  | some letter => ['\x5c', letter]
  | none =>
    if isPlainlyWritten c then [c]
    else if c.toNat < 0x100 then '\x5c' :: 'x' :: hexText 2 c.toNat
    else if c.toNat < 0x10000 then '\x5c' :: 'u' :: hexText 4 c.toNat
    else '\x5c' :: 'U' :: hexText 8 c.toNat

/-- A string between single quotes.  After a separator of lines the string goes on at the
indentation. -/
def singleText (indent : Nat) (cs : List Char) : List Char :=
  let body := fun (state : List Char × Bool) c =>
    let (out, broken) := state
    let out := if broken && !isBreak c then List.replicate indent ' ' ++ out else out
    (if c == '\x27' then '\x27' :: '\x27' :: out else c :: out, isBreak c)
  '\x27' :: ((cs.foldl body ([], false)).1.reverse ++ ['\x27'])

/-- The header of a literal block: a number of columns if its first line starts with a blank, and
what becomes of the line ends after its last line. -/
def literalHeader (cs : List Char) : List Char :=
  let columns := if cs.head?.any fun c => c == ' ' || isBreak c then digits indentStep else []
  let chomp := match cs.reverse with
    | [] => ['-']
    | last :: before =>
      if !isBreak last then ['-']
      else match before with
        | [] => ['+']
        | c :: _ => if isBreak c then ['+'] else []
  '|' :: columns ++ chomp

/-- The lines of a literal block without the end of the last one; lines of no length are not
indented. -/
def literalLines (indent : Nat) (cs : List Char) : List Char :=
  let body := fun (state : List Char × Bool) c =>
    let (out, broken) := state
    let out := if broken && !isBreak c then List.replicate indent ' ' ++ out else out
    (c :: out, isBreak c)
  match (cs.foldl body ([], true)).1 with
  | '\n' :: out => out.reverse
  | out => out.reverse

/-- A string as the value of a key whose column is `column`. -/
def stringText (column : Nat) (text : String) : String :=
  let cs := text.toList
  String.ofList <| match formOf text with
    | .plain => cs
    | .single => singleText (column + indentStep) cs
    | .double => '\x22' :: cs.flatMap escapeChar ++ ['\x22']
    | .literal => literalHeader cs ++ '\n' :: literalLines (column + indentStep) cs

/-- A truth value. -/
def boolText (b : Bool) : String := if b then "true" else "false"

/-- Lines of keys and values in a column. -/
def entryLines (column : Nat) (entries : List (String × String)) : List String :=
  entries.map fun (key, value) => String.ofList (List.replicate column ' ') ++ key ++ ": " ++ value

end TapeLife.Yaml
