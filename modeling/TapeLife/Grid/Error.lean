import TapeLife.Files.Tree
import TapeLife.Params

/-!
# Grid/Error — why an operation on a soup failed

Every cause has one wording (`SoupError.message`).  What is wrong with saved bytes is a
`FormatError` of its own, because loading never fails in any other way.
-/

namespace TapeLife

/-- What is wrong with the bytes of a saved soup. -/
inductive FormatError
  | truncatedHeader
  | badMagic
  | unsupportedVersion (version : Nat)
  | badFlag (field : String) (byte : UInt8)
  | dimensionsDisagree (width height paramsWidth paramsHeight : UInt32)
  | invalidParams (cause : ParamsError)
  | sizeOverflow
  | wrongPayload (expected : Nat) (width height : UInt32) (found : Nat)
  | wrongCellCount (expected : Nat) (width height : UInt32) (found : Nat)
deriving DecidableEq, Repr

/-- The wording of invalid parameters. -/
def invalidParamsMessage (cause : ParamsError) : String :=
  s!"invalid world parameters: {cause.message}"

/-- The wording of a cause. -/
def FormatError.message : FormatError → String
  | .truncatedHeader => "truncated header"
  | .badMagic => "bad magic bytes"
  | .unsupportedVersion version => s!"unsupported format version {version}"
  | .badFlag field byte => s!"{field} must be 0 or 1, got {byte}"
  | .dimensionsDisagree width height paramsWidth paramsHeight =>
    s!"header dimensions {width}x{height} disagree with params {paramsWidth}x{paramsHeight}"
  | .invalidParams cause => invalidParamsMessage cause
  | .sizeOverflow => "grid size overflows"
  | .wrongPayload expected width height found =>
    s!"expected {expected} bytes of cell data for a {width}x{height} grid, found {found}"
  | .wrongCellCount expected width height found =>
    s!"expected {expected} cells for a {width}x{height} grid, got {found}"

/-- Why an operation on a soup failed. -/
inductive SoupError
  | outOfBounds (x y : Int32) (width height : UInt32)
  | file (cause : FileError)
  | format (cause : FormatError)
  | invalidParams (cause : ParamsError)
  | unknownProgram (id : Int32)
deriving DecidableEq, Repr

/-- The wording of a failure. -/
def SoupError.message : SoupError → String
  | .outOfBounds x y width height => s!"cell ({x}, {y}) is outside the {width}x{height} grid"
  | .file cause => s!"I/O failure: {cause.message}"
  | .format cause => s!"malformed world data: {cause.message}"
  | .invalidParams cause => invalidParamsMessage cause
  | .unknownProgram id => s!"unknown program id {id}"

end TapeLife
