import TapeLife.Grid.Basic

/-!
# Settings/Basic — everything a run is told

Settings have five sections, each with a standard value.  Seeds are programs that are written onto
the soup before the first epoch.
-/

namespace TapeLife

/-- How long a run is and what it starts from. -/
structure RunSettings where
  /-- Epochs in total, counted from the beginning of the soup. -/
  epochs : UInt32
  /-- Epochs that are computed between two looks at the soup. -/
  speed : UInt32
  init : Fill
  /-- Epochs between two reports of progress; at zero there are none. -/
  reportInterval : UInt32
deriving DecidableEq

/-- A program for a place. -/
structure SeedSettings where
  x : Int32
  y : Int32
  /-- The number of a built-in program, which counts if there is no code. -/
  program : Int32
  /-- The text of a tape. -/
  code : String
deriving DecidableEq

/-- Which snapshots are kept, and where a run goes on from. -/
structure CheckpointSettings where
  enabled : Bool
  /-- Epochs between two snapshots; at zero only the last state is kept. -/
  interval : UInt32
  /-- The directory of the snapshots. -/
  path : String
  /-- The saved soup to go on from; nothing for a fresh start, or the word for the latest one. -/
  resumeFrom : String
deriving DecidableEq

/-- How the soup is watched. -/
structure MetricsSettings where
  enabled : Bool
  /-- Epochs between two censuses. -/
  interval : UInt32
  /-- The file of the table; without a name there is none. -/
  outputFile : String
  brotliQuality : UInt32
deriving DecidableEq

/-- Everything a run is told. -/
structure Settings where
  world : Params
  run : RunSettings
  seeds : List SeedSettings
  checkpoint : CheckpointSettings
  metrics : MetricsSettings
deriving DecidableEq

/-- Ten thousand epochs from random tapes. -/
def RunSettings.standard : RunSettings :=
  { epochs := 10000, speed := 16, init := .random, reportInterval := 256 }

/-- The replicator in the first cell. -/
def SeedSettings.standard : SeedSettings := { x := 0, y := 0, program := 1, code := "" }

/-- No snapshots. -/
def CheckpointSettings.standard : CheckpointSettings :=
  { enabled := false, interval := 10000, path := "checkpoints", resumeFrom := "" }

/-- No censuses. -/
def MetricsSettings.standard : MetricsSettings :=
  { enabled := false, interval := 1000, outputFile := "", brotliQuality := 4 }

namespace Settings

/-- What a run does unless it is told otherwise. -/
def standard : Settings :=
  { world := .standard, run := .standard, seeds := []
    checkpoint := .standard, metrics := .standard }

/-- The settings that a new file is filled with. -/
def template : Settings := { standard with seeds := [.standard] }

/-- Whether two settings agree, rates as numbers. -/
def same (s t : Settings) : Bool :=
  s.world.same t.world && { s with world := t.world } == t

end Settings

/-- The program of a seed: its code, or the built-in program of its number. -/
def SeedSettings.toProgram (seed : SeedSettings) : Except SoupError Program :=
  if seed.code = "" then
    match Program.builtIn? seed.program with
    | some program => .ok program
    | none => .error (.unknownProgram seed.program)
  else .ok (.ofText seed.code)

end TapeLife
