/-!
# Yaml/Node — what a document says

A document is a tree of scalars, sequences and mappings.  A scalar is its text, and whether it was
written plainly: only plain text can stand for a number, a truth value or nothing.
-/

namespace TapeLife.Yaml

/-- A value in a document. -/
inductive Node
  | scalar (plain : Bool) (text : String)
  | sequence (items : List Node)
  | mapping (entries : List (Node × Node))

/-- What stands where nothing is written. -/
def Node.nothing : Node := .scalar true ""

/-- Why a text is not a document that can be used. -/
inductive Fault
  | controlCharacter
  | tab (line : Nat)
  | unclosed (line : Nat)
  | badEscape (line : Nat)
  | badBlockHeader (line : Nat)
  | unexpected (line : Nat)
  | unsupported (line : Nat)
  | secondDocument
  | wrongKind (field : String)
  | wrongValue (field : String)
  | repeatedField (field : String)
deriving DecidableEq, Repr

/-- The wording of a fault. -/
def Fault.message : Fault → String
  | .controlCharacter => "control characters are not allowed"
  | .tab line => s!"a tab where spaces are needed on line {line + 1}"
  | .unclosed line => s!"something is not closed on line {line + 1}"
  | .badEscape line => s!"unknown escape on line {line + 1}"
  | .badBlockHeader line => s!"bad block header on line {line + 1}"
  | .unexpected line => s!"unexpected text on line {line + 1}"
  | .unsupported line => s!"unsupported construct on line {line + 1}"
  | .secondDocument => "more than one document"
  | .wrongKind field => s!"{field} has the wrong kind of value"
  | .wrongValue field => s!"{field} has a value that does not fit"
  | .repeatedField field => s!"{field} is given twice"

end TapeLife.Yaml
