import TapeLife.Yaml.Cursor

/-!
# Yaml/Properties — names and types in front of a value

In front of a value may stand a name, after an ampersand, and a type, after an exclamation mark.  No
setting depends on either, so both are checked and passed over.  What they stand in front of may be
empty.
-/

namespace TapeLife.Yaml

/-- Whether a character may stand in a name. -/
def isNameChar (c : Char) : Bool := c.isAlphanum || c == '-' || c == '_'

/-- Whether a character may stand in a type; between angles marks of brackets may, too. -/
def isTypeChar (angles : Bool) (c : Char) : Bool :=
  isNameChar c || ";/?:@&=+$.!~*\x27()".contains c || (angles && ",[]".contains c)

namespace Cursor

/-- Whether a name or a type starts here. -/
def atProperty (c : Cursor) : Bool := c.rest.head?.any fun mark => mark == '&' || mark == '!'

/-- The place at a shorter rest of the line. -/
def jump (c : Cursor) (rest : List Char) : Cursor :=
  { c.skip (c.rest.length - rest.length) with keyAllowed := false }

/-- Goes over a name. -/
def skipName (c : Cursor) : Except Fault Cursor :=
  let chars := c.rest.drop 1
  let rest := chars.dropWhile isNameChar
  let closers := ['?', ':', ',', ']', '\x7d', '%', '@', '\x60']
  let closes := startsBlank rest || rest.head?.any closers.contains
  if rest.length < chars.length && closes then .ok (c.jump rest) else .error (.unexpected c.line)

/-- What follows a type, after its exclamation mark.  A type may be in angles, or have a second
exclamation mark, and then something must follow it. -/
def typeRest? (chars : List Char) : Option (List Char) :=
  match chars with
  | '<' :: more =>
    match more.dropWhile (isTypeChar true) with
    | '>' :: rest => if rest.length + 1 < more.length then some rest else none
    | _ => none
  | '!' :: more =>
    let rest := more.dropWhile (isTypeChar false)
    if rest.length < more.length then some rest else none
  | _ =>
    match chars.dropWhile isNameChar with
    | '!' :: _ => none
    | _ => some (chars.dropWhile (isTypeChar false))

/-- Goes over a type. -/
def skipType (c : Cursor) (flow : Bool) : Except Fault Cursor :=
  match typeRest? (c.rest.drop 1) with
  | some rest =>
    if startsBlank rest || (flow && rest.head? == some ',') then .ok (c.jump rest)
    else .error (.unexpected c.line)
  | none => .error (.unexpected c.line)

/-- Goes over a name and a type, in either order, as far as they stand here. -/
def properties (c : Cursor) (flow : Bool) : Except Fault Cursor := do
  let follows := fun (c d : Cursor) (mark : Char) =>
    d.rest.head? == some mark && (flow || c.line == d.line)
  match c.rest.head? with
  | some '&' =>
    let c ← c.skipName
    let d := c.next flow
    if follows c d '!' then d.skipType flow else return c
  | some '!' =>
    let c ← c.skipType flow
    let d := c.next flow
    if follows c d '&' then d.skipName else return c
  | _ => return c

/-- The next thing after properties that have a line for themselves; otherwise the place itself. -/
def overProperties (c : Cursor) : Except Fault Cursor := do
  if c.atProperty then
    let d := (← c.properties false).next false
    return if d.line == c.line then c else d
  else return c

/-- Whether nothing is left to read here: a value may be empty before another mark in brackets, and
outside of them at the end of a line or before a colon. -/
def isBare (c : Cursor) (flow : Bool) : Bool :=
  let d := c.next flow
  if flow then d.rest.isEmpty || d.rest.head?.any [',', ']', '\x7d', ':'].contains
  else d.line != c.line || d.ended || d.atWord ':'

end Cursor

end TapeLife.Yaml
