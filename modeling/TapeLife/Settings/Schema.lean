import Mathlib.Logic.Function.Basic
import TapeLife.Settings.Reading

/-!
# Settings/Schema — sections as the values of their fields

    section ──get──▸ a value for every field ──build──▸ section

A section is nothing else than the values of its fields, and a `Schema` says which those are, under
which names they stand in a document and how each one is read.  With some of the fields chosen, a
section is taken to the one that has its values for these and the standard values for all others
(`Schema.select`); and so are the settings as a whole, with a choice for each section and for each
seed (`Settings.select`).
-/

namespace TapeLife

open Yaml (Node Fault)

/-- The fields of a section.  A section is the values of its fields, and no two fields have one
name. -/
structure Schema (σ : Type) where
  Key : Type
  [decidableEq : DecidableEq Key]
  Value : Key → Type
  keys : List Key
  mem_keys : ∀ k, k ∈ keys
  name : Key → String
  name_injective : ∀ k l, name k = name l → k = l
  read : (k : Key) → String → Node → Except Fault (Value k)
  get : σ → (k : Key) → Value k
  build : ((k : Key) → Value k) → σ
  get_build : ∀ values, get (build values) = values
  build_get : ∀ s, build (get s) = s
  standard : σ

namespace Schema

variable {σ : Type} (M : Schema σ)

instance : DecidableEq M.Key := M.decidableEq

/-- A field puts its value into the section and leaves the others as they are. -/
def field (k : M.Key) : Field σ :=
  .of (M.name k) (M.read k) fun a s => M.build (Function.update (M.get s) k a)

/-- The fields in the order of their keys. -/
def fields : List (Field σ) := M.keys.map M.field

/-- The values of a section for the chosen fields, and the standard values for all others. -/
def select (S : M.Key → Bool) (s : σ) : σ :=
  M.build fun k => if S k then M.get s k else M.get M.standard k

/-- The field that the key of an entry names, if it is known. -/
def keyOf? : Node → Option M.Key
  | .scalar _ text => M.keys.find? (M.name · == text)
  | _ => none

/-- The known fields that entries name, in the order of the entries. -/
def keysOf (entries : List (Node × Node)) : List M.Key := entries.filterMap (M.keyOf? ·.1)

/-- Entries of which each has a scalar for its key and none names a field that another one names. -/
structure NamesOnce (entries : List (Node × Node)) : Prop where
  scalar : ∀ e ∈ entries, ∃ plain text, e.1 = .scalar plain text
  nodup : (M.keysOf entries).Nodup

/-- Entries that list exactly the chosen fields, each with a value that is read as that of the
section, among any others that are not known. -/
structure Lists (S : M.Key → Bool) (s : σ) (entries : List (Node × Node)) : Prop
    extends M.NamesOnce entries where
  listed : ∀ k, k ∈ M.keysOf entries ↔ S k = true
  value : ∀ e ∈ entries, ∀ k, M.keyOf? e.1 = some k → M.read k (M.name k) e.2 = .ok (M.get s k)

/-- A node that gives the chosen fields of a section: a mapping that lists them, or nothing if there
are none. -/
def Gives (S : M.Key → Bool) (s : σ) : Node → Prop
  | .mapping entries => M.Lists S s entries
  | .scalar true "" => ∀ k, S k = false
  | _ => False

end Schema

/-! ## Sections -/

/-- The fields of the parameters. -/
inductive ParamsKey
  | seed | fixedShuffle | maxSteps | maxDist | rate | width | height
deriving DecidableEq

/-- The parameters, field by field. -/
def paramsSchema : Schema Params where
  Key := ParamsKey
  Value
    | .seed => UInt64
    | .fixedShuffle => Bool
    | .rate => Single
    | _ => UInt32
  keys := [.seed, .fixedShuffle, .maxSteps, .maxDist, .rate, .width, .height]
  mem_keys k := by cases k <;> decide
  name
    | .seed => "seed"
    | .fixedShuffle => "fixed_shuffle"
    | .maxSteps => "max_steps"
    | .maxDist => "max_dist"
    | .rate => "background_mutation_rate"
    | .width => "width"
    | .height => "height"
  name_injective k l := by cases k <;> cases l <;> decide
  read
    | .seed => readWide
    | .fixedShuffle => readBool
    | .maxSteps => readWord
    | .maxDist => readWord
    | .rate => readRate
    | .width => readWord
    | .height => readWord
  get s
    | .seed => s.seed
    | .fixedShuffle => s.fixedShuffle
    | .maxSteps => s.maxSteps
    | .maxDist => s.maxDist
    | .rate => s.rate
    | .width => s.width
    | .height => s.height
  build v :=
    { seed := v .seed, fixedShuffle := v .fixedShuffle, maxSteps := v .maxSteps
      maxDist := v .maxDist, rate := v .rate, width := v .width, height := v .height }
  get_build v := funext fun k => by cases k <;> rfl
  build_get _ := rfl
  standard := .standard

theorem paramsSchema_fields : paramsSchema.fields = paramsFields := rfl

/-- The fields of a run. -/
inductive RunKey
  | epochs | speed | init | reportInterval
deriving DecidableEq

/-- A run, field by field. -/
def runSchema : Schema RunSettings where
  Key := RunKey
  Value
    | .init => Fill
    | _ => UInt32
  keys := [.epochs, .speed, .init, .reportInterval]
  mem_keys k := by cases k <;> decide
  name
    | .epochs => "epochs"
    | .speed => "speed"
    | .init => "init"
    | .reportInterval => "report_interval"
  name_injective k l := by cases k <;> cases l <;> decide
  read
    | .epochs => readWord
    | .speed => readWord
    | .init => readFill
    | .reportInterval => readWord
  get s
    | .epochs => s.epochs
    | .speed => s.speed
    | .init => s.init
    | .reportInterval => s.reportInterval
  build v :=
    { epochs := v .epochs, speed := v .speed, init := v .init
      reportInterval := v .reportInterval }
  get_build v := funext fun k => by cases k <;> rfl
  build_get _ := rfl
  standard := .standard

theorem runSchema_fields : runSchema.fields = runFields := rfl

/-- The fields of a seed. -/
inductive SeedKey
  | x | y | program | code
deriving DecidableEq

/-- A seed, field by field. -/
def seedSchema : Schema SeedSettings where
  Key := SeedKey
  Value
    | .code => String
    | _ => Int32
  keys := [.x, .y, .program, .code]
  mem_keys k := by cases k <;> decide
  name
    | .x => "x"
    | .y => "y"
    | .program => "program"
    | .code => "code"
  name_injective k l := by cases k <;> cases l <;> decide
  read
    | .x => readInt32
    | .y => readInt32
    | .program => readInt32
    | .code => readString
  get s
    | .x => s.x
    | .y => s.y
    | .program => s.program
    | .code => s.code
  build v :=
    { x := v .x, y := v .y, program := v .program, code := v .code }
  get_build v := funext fun k => by cases k <;> rfl
  build_get _ := rfl
  standard := .standard

theorem seedSchema_fields : seedSchema.fields = seedFields := rfl

/-- The fields of the snapshots. -/
inductive CheckpointKey
  | enabled | interval | path | resumeFrom
deriving DecidableEq

/-- The snapshots, field by field. -/
def checkpointSchema : Schema CheckpointSettings where
  Key := CheckpointKey
  Value
    | .enabled => Bool
    | .interval => UInt32
    | _ => String
  keys := [.enabled, .interval, .path, .resumeFrom]
  mem_keys k := by cases k <;> decide
  name
    | .enabled => "enabled"
    | .interval => "interval"
    | .path => "path"
    | .resumeFrom => "resume_from"
  name_injective k l := by cases k <;> cases l <;> decide
  read
    | .enabled => readBool
    | .interval => readWord
    | .path => readString
    | .resumeFrom => readString
  get s
    | .enabled => s.enabled
    | .interval => s.interval
    | .path => s.path
    | .resumeFrom => s.resumeFrom
  build v :=
    { enabled := v .enabled, interval := v .interval, path := v .path
      resumeFrom := v .resumeFrom }
  get_build v := funext fun k => by cases k <;> rfl
  build_get _ := rfl
  standard := .standard

theorem checkpointSchema_fields : checkpointSchema.fields = checkpointFields := rfl

/-- The fields of the censuses. -/
inductive MetricsKey
  | enabled | interval | outputFile | brotliQuality
deriving DecidableEq

/-- The censuses, field by field. -/
def metricsSchema : Schema MetricsSettings where
  Key := MetricsKey
  Value
    | .enabled => Bool
    | .outputFile => String
    | _ => UInt32
  keys := [.enabled, .interval, .outputFile, .brotliQuality]
  mem_keys k := by cases k <;> decide
  name
    | .enabled => "enabled"
    | .interval => "interval"
    | .outputFile => "output_file"
    | .brotliQuality => "brotli_quality"
  name_injective k l := by cases k <;> cases l <;> decide
  read
    | .enabled => readBool
    | .interval => readWord
    | .outputFile => readString
    | .brotliQuality => readWord
  get s
    | .enabled => s.enabled
    | .interval => s.interval
    | .outputFile => s.outputFile
    | .brotliQuality => s.brotliQuality
  build v :=
    { enabled := v .enabled, interval := v .interval, outputFile := v .outputFile
      brotliQuality := v .brotliQuality }
  get_build v := funext fun k => by cases k <;> rfl
  build_get _ := rfl
  standard := .standard

theorem metricsSchema_fields : metricsSchema.fields = metricsFields := rfl

/-- The sections. -/
inductive SectionKey
  | world | run | seeds | checkpoint | metrics
deriving DecidableEq

/-- The settings by section. -/
def settingsSchema : Schema Settings where
  Key := SectionKey
  Value
    | .world => Params
    | .run => RunSettings
    | .seeds => List SeedSettings
    | .checkpoint => CheckpointSettings
    | .metrics => MetricsSettings
  keys := [.world, .run, .seeds, .checkpoint, .metrics]
  mem_keys k := by cases k <;> decide
  name
    | .world => "world"
    | .run => "run"
    | .seeds => "seeds"
    | .checkpoint => "checkpoint"
    | .metrics => "metrics"
  name_injective k l := by cases k <;> cases l <;> decide
  read
    | .world => readSection paramsFields .standard
    | .run => readSection runFields .standard
    | .seeds => readSeeds
    | .checkpoint => readSection checkpointFields .standard
    | .metrics => readSection metricsFields .standard
  get s
    | .world => s.world
    | .run => s.run
    | .seeds => s.seeds
    | .checkpoint => s.checkpoint
    | .metrics => s.metrics
  build v :=
    { world := v .world, run := v .run, seeds := v .seeds, checkpoint := v .checkpoint
      metrics := v .metrics }
  get_build v := funext fun k => by cases k <;> rfl
  build_get _ := rfl
  standard := .standard

theorem settingsSchema_fields : settingsSchema.fields = settingsFields := rfl

/-! ## Settings -/

namespace Settings

/-- The fields of settings that hold a single value, those of each seed by its place. -/
inductive FieldKey
  | world (k : ParamsKey)
  | run (k : RunKey)
  | seed (i : Nat) (k : SeedKey)
  | checkpoint (k : CheckpointKey)
  | metrics (k : MetricsKey)

/-- The values of settings for the chosen fields, and for all others the standard values of the
sections that they are in.  There are as many seeds as before. -/
def select (S : FieldKey → Bool) (s : Settings) : Settings where
  world := paramsSchema.select (S ∘ FieldKey.world) s.world
  run := runSchema.select (S ∘ FieldKey.run) s.run
  seeds := s.seeds.mapIdx fun i seed => seedSchema.select (S ∘ FieldKey.seed i) seed
  checkpoint := checkpointSchema.select (S ∘ FieldKey.checkpoint) s.checkpoint
  metrics := metricsSchema.select (S ∘ FieldKey.metrics) s.metrics

/-- A node that gives the chosen fields of all seeds: a sequence with an item for each of them, or
nothing if there are none. -/
def GivesSeeds (S : FieldKey → Bool) (seeds : List SeedSettings) : Node → Prop
  | .sequence items => items.length = seeds.length ∧ ∀ i seed item, seeds[i]? = some seed →
      items[i]? = some item → seedSchema.Gives (S ∘ FieldKey.seed i) seed item
  | .scalar true "" => seeds = []
  | _ => False

/-- A node that gives the chosen fields of a section. -/
def Gives (S : FieldKey → Bool) (s : Settings) (node : Node) : SectionKey → Prop
  | .world => paramsSchema.Gives (S ∘ FieldKey.world) s.world node
  | .run => runSchema.Gives (S ∘ FieldKey.run) s.run node
  | .seeds => GivesSeeds S s.seeds node
  | .checkpoint => checkpointSchema.Gives (S ∘ FieldKey.checkpoint) s.checkpoint node
  | .metrics => metricsSchema.Gives (S ∘ FieldKey.metrics) s.metrics node

/-- Entries that list exactly the chosen fields: each section that they name gives those of its own,
and a section that they do not name has none to give. -/
structure Lists (S : FieldKey → Bool) (s : Settings) (entries : List (Node × Node)) : Prop
    extends settingsSchema.NamesOnce entries where
  given : ∀ e ∈ entries, ∀ k, settingsSchema.keyOf? e.1 = some k → s.Gives S e.2 k
  omitted : ∀ k, k ∉ settingsSchema.keysOf entries → s.Gives S .nothing k

end Settings

end TapeLife
