import TapeLife.Yaml.Cursor
import TapeLife.Yaml.Folding

/-!
# Yaml/Plain — scalars without quotes

A plain scalar goes on until a colon or a comment mark that stands as a word, inside brackets until
one of their marks, and at most as long as its lines are indented.
-/

namespace TapeLife.Yaml

/-- Whether a plain scalar can start here. -/
def startsPlain (flow : Bool) : List Char → Bool
  | [] => false
  | c :: more =>
    if isBlank c || isBreak c || indicators.contains c then false
    else if c == '-' then !startsBlank more
    else if c == '?' || c == ':' then !flow && !startsBlank more
    else true

/-- Whether a colon here, inside brackets, leaves it open what it means. -/
def isLooseColon : List Char → Bool
  | ':' :: c :: _ => c == '?' || flowIndicators.contains c
  | _ => false

/-- Whether a plain scalar ends before what follows here on the same line. -/
def endsPlain (flow : Bool) : List Char → Bool
  | [] => true
  | c :: more => (c == ':' && startsBlank more) || (flow && flowIndicators.contains c)

/-- Reads a plain scalar.  `indent` is the first column in which its later lines may start; the
text so far is kept backwards. -/
def scanPlain (flow : Bool) (indent : Nat) (text : List Char) (gap : Gap) :
    (rest : List Char) → (line column : Nat) → (keyAllowed : Bool) →
    Except Fault (List Char × Cursor)
  | [], line, column, keyAllowed =>
    .ok (text.reverse, ⟨[], line, column, keyAllowed || gap.isBroken⟩)
  | c :: cs, line, column, keyAllowed =>
    if isBreak c then scanPlain flow indent text (gap.add c) cs (line + 1) 0 keyAllowed
    else if isBlank c then
      if c == '\t' && gap.isBroken && column < indent then .error (.tab line)
      else scanPlain flow indent text (gap.add c) cs line (column + 1) keyAllowed
    else
      let inGap := match gap with
        | .none => false
        | _ => true
      let stops := (inGap && (c == '#' || (!flow && column < indent)))
        || Cursor.isMarker '-' (c :: cs) column || Cursor.isMarker '.' (c :: cs) column
      if stops then .ok (text.reverse, ⟨c :: cs, line, column, keyAllowed || gap.isBroken⟩)
      else if flow && isLooseColon (c :: cs) then .error (.unexpected line)
      else if endsPlain flow (c :: cs) then
        .ok (text.reverse, ⟨c :: cs, line, column, keyAllowed || gap.isBroken⟩)
      else
        let text := c :: (gap.text.reverse ++ text)
        scanPlain flow indent text .none cs line (column + 1) keyAllowed

/-- Reads the plain scalar that starts at a cursor. -/
def Cursor.plain (c : Cursor) (flow : Bool) (indent : Nat) : Except Fault (Node × Cursor) := do
  let (text, c) ← scanPlain flow indent [] .none c.rest c.line c.column false
  return (.scalar true (String.ofList text), c)

end TapeLife.Yaml
