import TapeLife.Yaml.Character

/-!
# Yaml/Folding — blanks and line ends inside a scalar

A scalar may go over several lines.  Blanks between two words of a line are kept; a single end of
line becomes a space, of several the first is dropped, and blanks around them do not count.
-/

namespace TapeLife.Yaml

/-- What stands between two words of a scalar. -/
inductive Gap
  | none
  /-- Blanks on one line. -/
  | blanks (chars : List Char)
  /-- Ends of lines: the first, unless it was escaped, and those after it. -/
  | breaks (first : Option Char) (more : List Char)

namespace Gap

/-- The gap with one more blank or end of line. -/
def add : Gap → Char → Gap
  | .none, c => if isBreak c then .breaks (some c) [] else .blanks [c]
  | .blanks cs, c => if isBreak c then .breaks (some c) [] else .blanks (cs ++ [c])
  | .breaks first more, c => .breaks first (if isBreak c then more ++ [c] else more)

/-- What the gap is read as. -/
def text : Gap → List Char
  | .none => []
  | .blanks cs => cs
  | .breaks (some '\n') [] => [' ']
  | .breaks (some '\n') more => more
  | .breaks first more => first.toList ++ more

/-- Whether the gap goes over the end of a line. -/
def isBroken : Gap → Bool
  | .breaks .. => true
  | _ => false

end Gap

end TapeLife.Yaml
