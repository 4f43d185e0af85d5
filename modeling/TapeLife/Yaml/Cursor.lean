import TapeLife.Yaml.Character
import TapeLife.Yaml.Node

/-!
# Yaml/Cursor — a place in a document

A cursor is what is left of the document, with line and column, and whether a key may start here: a
key may follow the start of a line or the dash of an item, not the colon of another key.
-/

namespace TapeLife.Yaml

/-- A place in a document. -/
structure Cursor where
  rest : List Char
  line : Nat
  column : Nat
  keyAllowed : Bool

namespace Cursor

/-- The start of a text. -/
def start (text : List Char) : Cursor := ⟨text, 0, 0, true⟩

/-- The place after `n` characters of the line. -/
def skip (c : Cursor) (n : Nat) : Cursor := { c with rest := c.rest.drop n, column := c.column + n }

/-- Goes over blanks, comments and ends of lines to the next thing that is written.  Where a key may
start, a tab counts as written. -/
def seek (flow : Bool) : (comment : Bool) → (rest : List Char) → (line column : Nat) →
    (keyAllowed : Bool) → Cursor
  | _, [], line, column, keyAllowed => ⟨[], line, column, keyAllowed⟩
  | comment, c :: cs, line, column, keyAllowed =>
    if isBreak c then seek flow false cs (line + 1) 0 (keyAllowed || !flow)
    else if comment then seek flow true cs line (column + 1) keyAllowed
    else if c == ' ' || (c == '\t' && (flow || !keyAllowed)) then
      seek flow false cs line (column + 1) keyAllowed
    else if c == '\ufeff' && column == 0 then seek flow false cs line column keyAllowed
    else if c == '#' then seek flow true cs line (column + 1) keyAllowed
    else ⟨c :: cs, line, column, keyAllowed⟩

/-- The next thing that is written, inside brackets or not. -/
def next (c : Cursor) (flow : Bool) : Cursor := seek flow false c.rest c.line c.column c.keyAllowed

/-- Whether three given characters stand here as a word at the start of a line. -/
def isMarker (mark : Char) (rest : List Char) (column : Nat) : Bool :=
  column == 0 && match rest with
    | a :: b :: c :: more => a == mark && b == mark && c == mark && startsBlank more
    | _ => false

/-- Whether a document starts here. -/
def atStart (c : Cursor) : Bool := isMarker '-' c.rest c.column

/-- Whether a document stops here. -/
def atStop (c : Cursor) : Bool := isMarker '.' c.rest c.column

/-- Whether nothing more belongs to the document. -/
def ended (c : Cursor) : Bool := c.rest.isEmpty || c.atStart || c.atStop

/-- Whether a character stands here as a word. -/
def atWord (c : Cursor) (mark : Char) : Bool :=
  match c.rest with
  | first :: more => first == mark && startsBlank more
  | [] => false

end Cursor

end TapeLife.Yaml
