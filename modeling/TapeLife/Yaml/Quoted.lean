import TapeLife.Yaml.Cursor
import TapeLife.Yaml.Folding
import TapeLife.Yaml.Scalar

/-!
# Yaml/Quoted — scalars in quotes

Between single quotes a quote is written twice and nothing else is special.  Between double quotes
a backslash starts an escape: a letter for a character, a number of hexadecimal digits, or the end
of a line that is to be ignored.
-/

namespace TapeLife.Yaml

/-- The character that a letter after a backslash stands for. -/
def escaped? (c : Char) : Option Char :=
  [('0', '\x00'), ('a', '\x07'), ('b', '\x08'), ('t', '\t'), ('\t', '\t'), ('n', '\n'),
    ('v', '\x0b'), ('f', '\x0c'), ('r', '\r'), ('e', '\x1b'), (' ', ' '), ('\x22', '\x22'),
    ('/', '/'), ('\x5c', '\x5c'), ('N', '\u0085'), ('_', '\u00a0'), ('L', '\u2028'),
    ('P', '\u2029')].lookup c

/-- The number of hexadecimal digits after a letter after a backslash. -/
def escapeLength? (c : Char) : Option Nat := [('x', 2), ('u', 4), ('U', 8)].lookup c

/-- The character of a code point, if there is one. -/
def charOf? (n : Nat) : Option Char := if n.isValidChar then some (Char.ofNat n) else none

/-- Where the reading of a quoted scalar stands. -/
inductive QuoteState
  | between
  /-- After a backslash. -/
  | escape
  /-- Inside a number of hexadecimal digits. -/
  | hex (left value : Nat)

/-- Reads a quoted scalar after its opening quote; the text so far is kept backwards. -/
def scanQuoted (double : Bool) (text : List Char) (gap : Gap) (state : QuoteState) :
    (rest : List Char) → (line column : Nat) → Except Fault (List Char × Cursor)
  | [], line, _ => .error (.unclosed line)
  | c :: cs, line, column =>
    match state with
    | .hex left value =>
      match digitValue? c with
      | none => .error (.badEscape line)
      | some digit =>
        let value := value * 16 + digit
        match left with
        | 0 | 1 =>
          match charOf? value with
          | some ch => scanQuoted double (ch :: text) .none .between cs line (column + 1)
          | none => .error (.badEscape line)
        | left + 1 => scanQuoted double text .none (.hex left value) cs line (column + 1)
    | .escape =>
      if isBreak c then scanQuoted double text (.breaks none []) .between cs (line + 1) 0
      else match escaped? c, escapeLength? c with
        | some ch, _ => scanQuoted double (ch :: text) .none .between cs line (column + 1)
        | none, some left => scanQuoted double text .none (.hex left 0) cs line (column + 1)
        | none, none => .error (.badEscape line)
    | .between =>
      if isBreak c then scanQuoted double text (gap.add c) .between cs (line + 1) 0
      else if isBlank c then scanQuoted double text (gap.add c) .between cs line (column + 1)
      else if Cursor.isMarker '-' (c :: cs) column || Cursor.isMarker '.' (c :: cs) column then
        .error (.unexpected line)
      else
        let text := gap.text.reverse ++ text
        if double && c == '\x5c' then scanQuoted double text .none .escape cs line (column + 1)
        else if double && c == '\x22' then .ok (text.reverse, ⟨cs, line, column + 1, false⟩)
        else if !double && c == '\x27' then
          match cs with
          | '\x27' :: more =>
            scanQuoted double ('\x27' :: text) .none .between more line (column + 2)
          | _ => .ok (text.reverse, ⟨cs, line, column + 1, false⟩)
        else scanQuoted double (c :: text) .none .between cs line (column + 1)

/-- Reads the quoted scalar that starts at a cursor. -/
def Cursor.quoted (c : Cursor) (double : Bool) : Except Fault (Node × Cursor) := do
  let (text, c) ← scanQuoted double [] .none .between (c.rest.drop 1) c.line (c.column + 1)
  return (.scalar false (String.ofList text), c)

end TapeLife.Yaml
