import TapeLife.Yaml.Cursor

/-!
# Yaml/Block — scalars that take whole lines

A block scalar starts with a bar, and keeps its lines, or with an angle, and joins those that are
not indented further.  Its indentation is that of its first line that is not blank, or a number in
its header; the header also says what becomes of the line ends after its last line.
-/

namespace TapeLife.Yaml

/-- What becomes of the line ends at the end of a block. -/
inductive Chomp
  /-- The first is kept. -/
  | clip
  | strip
  | keep
deriving DecidableEq

/-- The header of a block. -/
structure BlockHeader where
  chomp : Chomp
  /-- Columns that the block is indented further than what it is in. -/
  indent : Option Nat

/-- One line of a document, and the character that ends it unless the document ends first. -/
structure Line where
  chars : List Char
  stop : Option Char

/-- The lines of a text; the text after the last end of a line is a line too. -/
def linesOf (line : List Char) : List Char → List Line
  | [] => [⟨line.reverse, none⟩]
  | c :: cs => if isBreak c then ⟨line.reverse, some c⟩ :: linesOf [] cs else linesOf (c :: line) cs

/-- The text of lines. -/
def textOf (lines : List Line) : List Char := lines.flatMap fun l => l.chars ++ l.stop.toList

/-- The number of spaces that a line starts with. -/
def Line.indent (l : Line) : Nat := (l.chars.takeWhile (· == ' ')).length

/-- Reads the header after its first character: a chomping mark and a number of columns in either
order, then perhaps a comment.  Also what is left of the line. -/
def readBlockHeader (rest : List Char) : Option BlockHeader :=
  let chompOf := fun c =>
    if c == '+' then some Chomp.keep else if c == '-' then some .strip else none
  let columnsOf := fun c => if '1' ≤ c && c ≤ '9' then some (c.toNat - 48) else none
  let finish := fun (h : BlockHeader) (more : List Char) =>
    match more.dropWhile isBlank with
    | [] => some h
    | c :: _ => if c == '#' then some h else none
  match rest with
  | [] => some ⟨.clip, none⟩
  | c :: more =>
    match chompOf c, columnsOf c with
    | some chomp, _ =>
      match more with
      | d :: tail =>
        match columnsOf d with
        | some n => finish ⟨chomp, some n⟩ tail
        | none => finish ⟨chomp, none⟩ more
      | [] => some ⟨chomp, none⟩
    | none, some n =>
      match more with
      | d :: tail =>
        match chompOf d with
        | some chomp => finish ⟨chomp, some n⟩ tail
        | none => finish ⟨.clip, some n⟩ more
      | [] => some ⟨.clip, some n⟩
    | none, none => finish ⟨.clip, none⟩ rest

/-- The indentation of a block without a number in its header: that of its first line that is not
blank or the widest of the blank ones before it, and at least `least`. -/
def findIndent (least : Nat) : List Line → Except Unit Nat
  | [] => .ok least
  | l :: ls =>
    match l.chars.dropWhile (· == ' ') with
    | '\t' :: _ => .error ()
    | _ :: _ => .ok (max least l.indent)
    | [] => findIndent (max least l.indent) ls

/-- A block in the making. -/
structure BlockText where
  /-- The text so far, backwards. -/
  text : List Char := []
  /-- The end of the last line. -/
  lastBreak : List Char := []
  /-- Whether the last line started with a blank. -/
  lastBlank : Bool := false
  /-- The ends of the blank lines since. -/
  trailing : List Char := []

/-- Adds a line. -/
def BlockText.addLine (b : BlockText) (folded : Bool) (chars : List Char) (stop : Option Char) :
    BlockText :=
  let blank := chars.head?.any isBlank
  let joint :=
    if folded && b.lastBreak.head? == some '\n' && !b.lastBlank && !blank then
      if b.trailing.isEmpty then [' '] else []
    else b.lastBreak
  { text := chars.reverse ++ b.trailing.reverse ++ joint.reverse ++ b.text
    lastBreak := stop.toList
    lastBlank := blank
    trailing := [] }

/-- Takes lines as long as they belong to the block; also the lines that do not, and how many were
taken. -/
def takeBlock (folded : Bool) (indent : Nat) (b : BlockText) (taken : Nat) :
    List Line → Except Unit (BlockText × List Line × Nat)
  | [] => .ok (b, [], taken)
  | l :: ls =>
    let spaces := min indent l.indent
    match l.chars.drop spaces, l.stop with
    | [], some stop =>
      takeBlock folded indent { b with trailing := b.trailing ++ [stop] } (taken + 1) ls
    | [], none => .ok (b, [l], taken)
    | c :: cs, stop =>
      if spaces == indent then
        takeBlock folded indent (b.addLine folded (c :: cs) stop) (taken + 1) ls
      else if c == '\t' then .error ()
      else .ok (b, l :: ls, taken)

/-- What is kept at the end of a block. -/
def BlockText.finish (b : BlockText) (chomp : Chomp) : List Char :=
  b.text.reverse ++ match chomp with
    | .strip => []
    | .clip => b.lastBreak
    | .keep => b.lastBreak ++ b.trailing

/-- Reads the block scalar that starts at a cursor inside something indented by `parent`. -/
def Cursor.block (c : Cursor) (folded : Bool) (parent : Int) : Except Fault (Node × Cursor) := do
  match linesOf [] (c.rest.drop 1) with
  | [] => .error (.unexpected c.line)
  | first :: lines =>
    match readBlockHeader first.chars with
    | none => .error (.badBlockHeader c.line)
    | some header =>
      let lines := if first.stop.isSome then lines else []
      let indent ← match header.indent with
        | some n => pure ((max parent 0).toNat + n)
        | none =>
          match findIndent (max (parent + 1) 1).toNat lines with
          | .ok n => pure n
          | .error () => .error (.tab c.line)
      match takeBlock folded indent {} 0 lines with
      | .error () => .error (.tab c.line)
      | .ok (b, rest, taken) =>
        return (.scalar false (String.ofList (b.finish header.chomp)),
          ⟨textOf rest, c.line + 1 + taken, 0, true⟩)

end TapeLife.Yaml
