import TapeLife.Yaml.Block
import TapeLife.Yaml.Plain
import TapeLife.Yaml.Properties
import TapeLife.Yaml.Quoted

/-!
# Yaml/Reader — from text to the tree of a document

A document is read by descent: what stands where decides by its first character and its column what
it is, and something belongs to a collection only as long as it is indented like it.  Outside
brackets a collection is known by its column alone; inside brackets columns do not count.

Every call either goes over at least one character or is followed by one that does, so a depth of a
few calls for every character is never used up (`Node.ofText`).
-/

namespace TapeLife.Yaml

/-- The longest key, in characters. -/
def maxKeyLength : Nat := 1024

namespace Cursor

/-- Whether what was read between two cursors can be a key: on one line and not too long. -/
def spansKey (c after : Cursor) : Bool :=
  c.line == after.line && c.rest.length ≤ after.rest.length + maxKeyLength

/-- The character here. -/
def head? (c : Cursor) : Option Char := c.rest.head?

/-- The fault of something that should not stand here. -/
def unexpected {α : Type} (c : Cursor) : Except Fault α := .error (.unexpected c.line)

end Cursor

/-- What is left to read in brackets: a fault if it is the end. -/
def flowNext (c : Cursor) : Except Fault Cursor :=
  let c := c.next true
  if c.rest.isEmpty then .error (.unclosed c.line)
  else if c.ended then c.unexpected
  else .ok c

mutual

/-- Reads a collection in brackets or a scalar; `indent` is the first column of later lines. -/
def readInline : (depth : Nat) → (flow : Bool) → (indent : Nat) → Cursor →
    Except Fault (Node × Cursor)
  | 0, _, _, c => c.unexpected
  | depth + 1, flow, indent, c =>
    match c.head? with
    | some '[' => readFlowItems depth indent [] (c.skip 1)
    | some '\x7b' => readFlowEntries depth indent [] (c.skip 1)
    | some '\x22' => c.quoted true
    | some '\x27' => c.quoted false
    | some '*' => .error (.unsupported c.line)
    | some '&' | some '!' => do
      let after ← c.properties flow
      let d := after.next flow
      if after.isBare flow then return (Node.nothing, after)
      else if d.atProperty then d.unexpected
      else readInline depth flow indent d
    | _ => if startsPlain flow c.rest then c.plain flow indent else c.unexpected

/-- Reads the items of a sequence in brackets up to the closing one; those so far are kept
backwards. -/
def readFlowItems : (depth : Nat) → (indent : Nat) → (items : List Node) → Cursor →
    Except Fault (Node × Cursor)
  | 0, _, _, c => c.unexpected
  | depth + 1, indent, items, c => do
    let c ← flowNext c
    if c.head? == some ']' then
      return (.sequence items.reverse, { c.skip 1 with keyAllowed := false })
    else
      let (item, after) ← if c.head? == some ':' then pure (Node.nothing, c)
        else readInline depth true indent c
      let d ← flowNext after
      let (item, d) ←
        if d.head? == some ':' && c.spansKey d then do
          let (value, d) ← readFlowValue depth indent (d.skip 1)
          pure (Node.mapping [(item, value)], d)
        else pure (item, d)
      match d.head? with
      | some ',' => readFlowItems depth indent (item :: items) (d.skip 1)
      | some ']' => readFlowItems depth indent (item :: items) d
      | _ => d.unexpected

/-- Reads the entries of a mapping in brackets up to the closing one; those so far are kept
backwards. -/
def readFlowEntries : (depth : Nat) → (indent : Nat) → (entries : List (Node × Node)) → Cursor →
    Except Fault (Node × Cursor)
  | 0, _, _, c => c.unexpected
  | depth + 1, indent, entries, c => do
    let c ← flowNext c
    if c.head? == some '\x7d' then
      return (.mapping entries.reverse, { c.skip 1 with keyAllowed := false })
    else
      let (key, after) ← if c.head? == some ':' then pure (Node.nothing, c)
        else readInline depth true indent c
      let d ← flowNext after
      let (value, d) ←
        if d.head? == some ':' && c.spansKey d then readFlowValue depth indent (d.skip 1)
        else pure (Node.nothing, d)
      match d.head? with
      | some ',' => readFlowEntries depth indent ((key, value) :: entries) (d.skip 1)
      | some '\x7d' => readFlowEntries depth indent ((key, value) :: entries) d
      | _ => d.unexpected

/-- Reads the value after a colon in brackets, if there is one; the cursor goes to what follows. -/
def readFlowValue : (depth : Nat) → (indent : Nat) → Cursor → Except Fault (Node × Cursor)
  | 0, _, c => c.unexpected
  | depth + 1, indent, c => do
    let c ← flowNext c
    if c.head? == some ',' || c.head? == some ']' || c.head? == some '\x7d' then
      return (Node.nothing, c)
    else
      let (value, after) ← readInline depth true indent c
      return (value, ← flowNext after)

end

/-- Reads a scalar or a collection in brackets and looks whether it is a key: if a colon follows on
its line, the cursor is left on the colon. -/
def readMaybeKey (depth : Nat) (indent : Nat) (c : Cursor) :
    Except Fault (Node × Bool × Cursor) := do
  let (node, after) ← readInline depth false indent c
  let colon := { after with keyAllowed := false }.next false
  if colon.line == after.line && colon.atWord ':' then
    if c.keyAllowed && c.spansKey colon then return (node, true, colon)
    else colon.unexpected
  else return (node, false, after)

mutual

/-- Reads what stands at a cursor, inside something indented by `parent`. -/
def readNode : (depth : Nat) → (parent : Int) → Cursor → Except Fault (Node × Cursor)
  | 0, _, c => c.unexpected
  | depth + 1, parent, c =>
    if c.atWord '-' then
      if c.keyAllowed then readItems depth c.column false [] c else c.unexpected
    else do
      let content := (← c.properties false).next false
      match if content.line == c.line then content.head? else none with
      | some '|' => content.block false parent
      | some '>' => content.block true parent
      | _ =>
        match ← readMaybeKey depth (parent + 1).toNat c with
        | (node, false, after) => return (node, after)
        | (key, true, colon) => readEntries depth c.column [] key colon

/-- Reads the items of a sequence in a column, from its next dash on; those so far are kept
backwards.  A sequence that is not indented further than the mapping it is in ends at the next
key. -/
def readItems : (depth : Nat) → (column : Nat) → (flush : Bool) → (items : List Node) → Cursor →
    Except Fault (Node × Cursor)
  | 0, _, _, _, c => c.unexpected
  | depth + 1, column, flush, items, c => do
    let first := { c.skip 1 with keyAllowed := true }.next false
    let first ← if first.column ≤ column then pure first else first.overProperties
    let (item, after) ←
      if first.ended || first.column ≤ column then pure (Node.nothing, first)
      else readNode depth column first
    let d := after.next false
    if d.ended || d.column < column then return (.sequence (item :: items).reverse, d)
    else if column < d.column then d.unexpected
    else if d.atWord '-' then readItems depth column flush (item :: items) d
    else if flush then return (.sequence (item :: items).reverse, d)
    else d.unexpected

/-- Reads the entries of a mapping in a column, from the colon after its next key on; those so far
are kept backwards. -/
def readEntries : (depth : Nat) → (column : Nat) → (entries : List (Node × Node)) → (key : Node) →
    Cursor → Except Fault (Node × Cursor)
  | 0, _, _, _, c => c.unexpected
  | depth + 1, column, entries, key, c => do
    let first := { c.skip 1 with keyAllowed := false }.next false
    let first ← if first.column ≤ column then pure first else first.overProperties
    let (value, after) ←
      if first.ended || first.column < column then pure (Node.nothing, first)
      else if first.column == column then
        if first.atWord '-' then readItems depth column true [] first
        else pure (Node.nothing, first)
      else readNode depth column first
    let d := after.next false
    let entries := (key, value) :: entries
    if d.ended || d.column < column then return (.mapping entries.reverse, d)
    else if column < d.column || !d.keyAllowed || d.atWord '-' then d.unexpected
    else
      match ← readMaybeKey depth (column + 1) d with
      | (_, false, _) => d.unexpected
      | (key, true, colon) => readEntries depth column entries key colon

end

/-- What may follow a document: marks of its end, and nothing else. -/
def readTail : (depth : Nat) → Cursor → Except Fault Unit
  | 0, c => c.unexpected
  | depth + 1, c =>
    let c := c.next false
    if c.rest.isEmpty then .ok ()
    else if c.atStop then readTail depth { c.skip 3 with keyAllowed := true }
    else .error .secondDocument

/-- Goes over marks of an end before the document starts. -/
def skipStops : (depth : Nat) → Cursor → Cursor
  | 0, c => c
  | depth + 1, c =>
    let c := c.next false
    if c.atStop then skipStops depth { c.skip 3 with keyAllowed := true } else c

/-- The document that a text holds.  An empty text holds nothing. -/
def Node.ofText (text : String) : Except Fault Node := do
  if !text.toList.all isAllowed then .error .controlCharacter
  else
    let chars := normalizeBreaks text.toList
    let depth := 4 * chars.length + 16
    let c := skipStops depth (Cursor.start chars)
    let c := if c.atStart then { c.skip 3 with keyAllowed := false }.next false else c
    let c ← c.overProperties
    if c.ended then
      readTail depth c
      return Node.nothing
    else
      let (node, after) ← readNode depth (-1) c
      let d := after.next false
      if d.rest.isEmpty then return node
      else if d.atStop then
        readTail depth d
        return node
      else if d.atStart then .error .secondDocument
      else d.unexpected

end TapeLife.Yaml
