import TapeLife.Files.Tree
import TapeLife.Settings.Basic
import TapeLife.Yaml.Writer

/-!
# Settings/Writing — settings as a document

Every section with all of its fields, in a fixed order.  Fields stand two columns in, and the dashes
of the seeds stand in the column of their key.
-/

namespace TapeLife

open Yaml (stringText boolText entryLines indentStep)

/-- A word without sign. -/
def wordText (n : UInt32) : String := decimalText n.toNat

/-- A whole number with a minus sign if it is below zero. -/
def int32Text (n : Int32) : String := signed (n.toInt < 0) (decimalText n.toInt.natAbs)

/-- The word for what tapes are filled with. -/
def Fill.text : Fill → String
  | .zero => "zero"
  | .random => "random"

/-- The fields of the parameters. -/
def Params.entries (p : Params) : List (String × String) := [
  ("seed", decimalText p.seed.toNat),
  ("fixed_shuffle", boolText p.fixedShuffle),
  ("max_steps", wordText p.maxSteps),
  ("max_dist", wordText p.maxDist),
  ("background_mutation_rate", Yaml.numberStyle.render p.rate),
  ("width", wordText p.width),
  ("height", wordText p.height)]

/-- The fields of a run. -/
def RunSettings.entries (r : RunSettings) : List (String × String) := [
  ("epochs", wordText r.epochs),
  ("speed", wordText r.speed),
  ("init", r.init.text),
  ("report_interval", wordText r.reportInterval)]

/-- The fields of a seed. -/
def SeedSettings.entries (s : SeedSettings) : List (String × String) := [
  ("x", int32Text s.x),
  ("y", int32Text s.y),
  ("program", int32Text s.program),
  ("code", stringText indentStep s.code)]

/-- The fields of the snapshots. -/
def CheckpointSettings.entries (c : CheckpointSettings) : List (String × String) := [
  ("enabled", boolText c.enabled),
  ("interval", wordText c.interval),
  ("path", stringText indentStep c.path),
  ("resume_from", stringText indentStep c.resumeFrom)]

/-- The fields of the censuses. -/
def MetricsSettings.entries (m : MetricsSettings) : List (String × String) := [
  ("enabled", boolText m.enabled),
  ("interval", wordText m.interval),
  ("output_file", stringText indentStep m.outputFile),
  ("brotli_quality", wordText m.brotliQuality)]

/-- The lines of a section. -/
def sectionLines (name : String) (entries : List (String × String)) : List String :=
  (name ++ ":") :: entryLines indentStep entries

/-- The lines of a seed: a dash in front of its first field. -/
def SeedSettings.lines (s : SeedSettings) : List String :=
  match entryLines 0 s.entries with
  | [] => []
  | first :: rest => ("- " ++ first) :: rest.map ("  " ++ ·)

/-- The lines of the seeds. -/
def seedsLines (seeds : List SeedSettings) : List String :=
  if seeds.isEmpty then ["seeds: []"] else "seeds:" :: seeds.flatMap SeedSettings.lines

namespace Settings

/-- The lines of a document with all settings. -/
def lines (s : Settings) : List String :=
  sectionLines "world" s.world.entries
    ++ sectionLines "run" s.run.entries
    ++ seedsLines s.seeds
    ++ sectionLines "checkpoint" s.checkpoint.entries
    ++ sectionLines "metrics" s.metrics.entries

/-- A document with all settings. -/
def toText (s : Settings) : String := String.join (s.lines.map (· ++ "\n"))

/-- Writes a document with all settings to a file; its directory must be there. -/
def writeTo (s : Settings) (tree : FileTree) (path : Path) : FileTree × Option FileError :=
  tree.write path s.toText.toUTF8.toList

end Settings

end TapeLife
