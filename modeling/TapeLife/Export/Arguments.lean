import TapeLife.Decimal.Reading
import TapeLife.Export.Rows
import TapeLife.Files.Path

/-!
# Export/Arguments — what to export, from a command line

Arguments are read from left to right, and the first thing wrong with them ends the reading.  What
has to be there is looked for at the end.
-/

namespace TapeLife

/-- What to export. -/
structure ExportOptions where
  input : Path
  output : Path
  /-- Of a directory, every checkpoint whose number is a multiple of this. -/
  stride : Nat
  table : TableOptions

/-- Why a command line is answered with the usage text. -/
inductive UsageError
  | help
  | badValue (flag : String)
  | strideZero
  | unknown (argument : String)
  | inputMissing
  | outputMissing
  | nothingFound
deriving DecidableEq

/-- The wording of a cause; none for a request for help. -/
def UsageError.message? : UsageError → Option String
  | .help => none
  | .badValue flag => some s!"Invalid {flag} value"
  | .strideZero => some "--stride must be > 0"
  | .unknown argument => some s!"Unknown argument: {argument}"
  | .inputMissing => some "--input is required"
  | .outputMissing => some "--out is required"
  | .nothingFound => some "No checkpoint_epoch_*.bfsw files found in --input"

/-- The lines of the usage text. -/
def usageLines : List String := [
  "world_to_csv (offline saved-world exporter)",
  "",
  "REQUIRED:",
  "  --input <FILE|DIR>      Saved world, or a directory of checkpoint_epoch_*.bfsw",
  "  --out <FILE.csv>        Output CSV file",
  "",
  "OPTIONAL:",
  "  --stride <N>            Export every Nth checkpoint (default: 1)",
  "  --bytes-hex <N>         Include first N bytes of each tape as hex (default: 0)",
  "  --exclude-zero          Skip all-zero tapes",
  ""]

/-- The usage text with what was wrong in front. -/
def usageText (cause : UsageError) : String :=
  let front := match cause.message? with
    | some message => s!"Error: {message}\n\n"
    | none => ""
  front ++ String.join (usageLines.map (· ++ "\n"))

/-- Options while the arguments are being read. -/
structure PartialOptions where
  input : Option Path := none
  output : Option Path := none
  stride : Nat := 1
  bytesShown : Nat := 0
  skipBlank : Bool := false

/-- A count in an argument, as large as a size can be. -/
def countOfArgument? (s : String) : Option Nat :=
  (readNatural? s.toList).filter (· < UInt64.size)

/-- Reads arguments from left to right. -/
def readExportArguments : List String → PartialOptions → Except UsageError PartialOptions
  | [], o => .ok o
  | argument :: rest, o =>
    if argument == "--input" || argument == "-i" then
      match rest with
      | [] => .ok { o with input := none }
      | value :: rest => readExportArguments rest { o with input := some value }
    else if argument == "--out" || argument == "-o" then
      match rest with
      | [] => .ok { o with output := none }
      | value :: rest => readExportArguments rest { o with output := some value }
    else if argument == "--stride" then
      match rest with
      | [] => .error (.badValue argument)
      | value :: rest =>
        match countOfArgument? value with
        | none => .error (.badValue argument)
        | some 0 => .error .strideZero
        | some n => readExportArguments rest { o with stride := n }
    else if argument == "--bytes-hex" then
      match rest with
      | [] => .error (.badValue argument)
      | value :: rest =>
        match countOfArgument? value with
        | none => .error (.badValue argument)
        | some n => readExportArguments rest { o with bytesShown := min n tapeSize }
    else if argument == "--exclude-zero" then readExportArguments rest { o with skipBlank := true }
    else if argument == "--help" || argument == "-h" then .error .help
    else .error (.unknown argument)

/-- What to export, from a command line. -/
def ExportOptions.ofArguments (arguments : List String) : Except UsageError ExportOptions := do
  let o ← readExportArguments arguments {}
  match o.input, o.output with
  | none, _ => throw .inputMissing
  | some _, none => throw .outputMissing
  | some input, some output =>
    return { input, output, stride := o.stride, table := ⟨o.bytesShown, o.skipBlank⟩ }

end TapeLife
