import TapeLife.Files.Tree
import TapeLife.Settings.Basic
import TapeLife.Yaml.Reader

/-!
# Settings/Reading — settings from a document

A section is a mapping, or nothing.  Each of its known fields may be given once and replaces the
standard value; fields that are not known are passed over.  A `Field` says how one field is read
into a section, and `readSection` does the rest for every section alike.
-/

namespace TapeLife

open Yaml (Node Fault)

/-- How a field of a section is read. -/
structure Field (σ : Type) where
  name : String
  read : Node → σ → Except Fault σ

/-- A field with a reader for its value and a way to put it into the section. -/
def Field.of {σ α : Type} (name : String) (value : String → Node → Except Fault α)
    (put : α → σ → σ) : Field σ :=
  ⟨name, fun node sect => (value name node).map fun a => put a sect⟩

/-- Reads the entries of a mapping into a section; `seen` are the fields read so far. -/
def readEntries {σ : Type} (fields : List (Field σ)) :
    (seen : List String) → σ → List (Node × Node) → Except Fault σ
  | _, sect, [] => .ok sect
  | seen, sect, (.scalar _ name, node) :: rest =>
    match fields.find? (·.name == name) with
    | none => readEntries fields seen sect rest
    | some field => do
      if seen.contains name then throw (.repeatedField name)
      readEntries fields (name :: seen) (← field.read node sect) rest
  | _, _, _ :: _ => .error (.wrongKind "key")

/-- Reads a section, starting from its standard value. -/
def readSection {σ : Type} (fields : List (Field σ)) (standard : σ) (name : String) :
    Node → Except Fault σ
  | .mapping entries => readEntries fields [] standard entries
  | .scalar true "" => .ok standard
  | _ => .error (.wrongKind name)

/-- Plain text through a reader. -/
def readPlain {α : Type} (read? : List Char → Option α) (name : String) : Node → Except Fault α
  | .scalar true text =>
    match read? text.toList with
    | some a => .ok a
    | none => .error (.wrongValue name)
  | _ => .error (.wrongKind name)

/-- A number of thirty-two bits without sign. -/
def readWord : String → Node → Except Fault UInt32 :=
  readPlain fun cs => (Yaml.natural? cs).bind fun n =>
    if n < UInt32.size then some (UInt32.ofNat n) else none

/-- A number of sixty-four bits without sign. -/
def readWide : String → Node → Except Fault UInt64 :=
  readPlain fun cs => (Yaml.natural? cs).bind fun n =>
    if n < UInt64.size then some (UInt64.ofNat n) else none

/-- A number of thirty-two bits with sign. -/
def readInt32 : String → Node → Except Fault Int32 :=
  readPlain fun cs => (Yaml.whole? cs).bind fun n =>
    if Int32.minValue.toInt ≤ n ∧ n ≤ Int32.maxValue.toInt then some (Int32.ofInt n) else none

/-- A truth value. -/
def readBool : String → Node → Except Fault Bool :=
  readPlain fun cs => Yaml.bool? (String.ofList cs)

/-- A number that is rounded to sixty-four bits and then to thirty-two. -/
def readRate : String → Node → Except Fault Single :=
  readPlain fun cs => (Yaml.double? cs).map Single.ofBinary

/-- Any scalar, as it is written. -/
def readString (name : String) : Node → Except Fault String
  | .scalar _ text => .ok text
  | _ => .error (.wrongKind name)

/-- The word for what tapes are filled with. -/
def readFill (name : String) (node : Node) : Except Fault Fill := do
  match ← readString name node with
  | "zero" => .ok .zero
  | "random" => .ok .random
  | _ => .error (.wrongValue name)

/-- The fields of the parameters. -/
def paramsFields : List (Field Params) := [
  .of "seed" readWide fun a p => { p with seed := a },
  .of "fixed_shuffle" readBool fun a p => { p with fixedShuffle := a },
  .of "max_steps" readWord fun a p => { p with maxSteps := a },
  .of "max_dist" readWord fun a p => { p with maxDist := a },
  .of "background_mutation_rate" readRate fun a p => { p with rate := a },
  .of "width" readWord fun a p => { p with width := a },
  .of "height" readWord fun a p => { p with height := a }]

/-- The fields of a run. -/
def runFields : List (Field RunSettings) := [
  .of "epochs" readWord fun a r => { r with epochs := a },
  .of "speed" readWord fun a r => { r with speed := a },
  .of "init" readFill fun a r => { r with init := a },
  .of "report_interval" readWord fun a r => { r with reportInterval := a }]

/-- The fields of a seed. -/
def seedFields : List (Field SeedSettings) := [
  .of "x" readInt32 fun a s => { s with x := a },
  .of "y" readInt32 fun a s => { s with y := a },
  .of "program" readInt32 fun a s => { s with program := a },
  .of "code" readString fun a s => { s with code := a }]

/-- The fields of the snapshots. -/
def checkpointFields : List (Field CheckpointSettings) := [
  .of "enabled" readBool fun a c => { c with enabled := a },
  .of "interval" readWord fun a c => { c with interval := a },
  .of "path" readString fun a c => { c with path := a },
  .of "resume_from" readString fun a c => { c with resumeFrom := a }]

/-- The fields of the censuses. -/
def metricsFields : List (Field MetricsSettings) := [
  .of "enabled" readBool fun a m => { m with enabled := a },
  .of "interval" readWord fun a m => { m with interval := a },
  .of "output_file" readString fun a m => { m with outputFile := a },
  .of "brotli_quality" readWord fun a m => { m with brotliQuality := a }]

/-- The seeds: a sequence of sections, or nothing. -/
def readSeeds (name : String) : Node → Except Fault (List SeedSettings)
  | .sequence items => items.mapM (readSection seedFields .standard name)
  | .scalar true "" => .ok []
  | _ => .error (.wrongKind name)

/-- The sections. -/
def settingsFields : List (Field Settings) := [
  .of "world" (readSection paramsFields .standard) fun a s => { s with world := a },
  .of "run" (readSection runFields .standard) fun a s => { s with run := a },
  .of "seeds" readSeeds fun a s => { s with seeds := a },
  .of "checkpoint" (readSection checkpointFields .standard) fun a s => { s with checkpoint := a },
  .of "metrics" (readSection metricsFields .standard) fun a s => { s with metrics := a }]

namespace Settings

/-- The settings in a document. -/
def ofNode : Node → Except Fault Settings := readSection settingsFields .standard "settings"

/-- The settings in a text. -/
def ofText (text : String) : Except Fault Settings := do ofNode (← Node.ofText text)

/-- Why settings could not be read from a file. -/
inductive ReadError
  | file (cause : FileError)
  | document (cause : Fault)

/-- The wording of a failure. -/
def ReadError.message : ReadError → String
  | .file cause => s!"cannot access config file: {cause.message}"
  | .document cause => s!"invalid YAML: {cause.message}"

/-- The settings in a file. -/
def ofFile (tree : FileTree) (path : Path) : Except ReadError Settings :=
  match tree.readText path with
  | .error cause => .error (.file cause)
  | .ok text =>
    match ofText text with
    | .error cause => .error (.document cause)
    | .ok settings => .ok settings

end Settings

end TapeLife
