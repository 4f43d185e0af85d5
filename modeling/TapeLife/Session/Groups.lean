import TapeLife.Session.Arguments

/-!
# Session/Groups — what a command line says, argument group by argument group

Settings consist of single values, each with a place of its own (`Slot`).  A command line consists
of groups: a file to load, an option with its value, or a switch.  A table says which options name
which slot and which arguments switch it, so what a group gives to a slot can be said without going
through the arguments in order.
-/

namespace TapeLife

/-- The places of the single values in settings. -/
inductive Slot
  | seed | fixedShuffle | maxSteps | maxDist | rate | width | height
  | epochs | speed | init | reportInterval
  | seeds
  | checkpointEnabled | checkpointInterval | checkpointPath | resumeFrom
  | metricsEnabled | metricsInterval | outputFile | brotliQuality
deriving DecidableEq

namespace Slot

/-- The values that a slot can have. -/
def Value : Slot → Type
  | fixedShuffle | checkpointEnabled | metricsEnabled => Bool
  | seed => UInt64
  | rate => Single
  | init => Fill
  | seeds => List SeedSettings
  | checkpointPath | resumeFrom | outputFile => String
  | maxSteps | maxDist | width | height | epochs | speed | reportInterval | checkpointInterval
  | metricsInterval | brotliQuality => UInt32

instance : (slot : Slot) → DecidableEq slot.Value
  | fixedShuffle | checkpointEnabled | metricsEnabled => inferInstanceAs (DecidableEq Bool)
  | seed => inferInstanceAs (DecidableEq UInt64)
  | rate => inferInstanceAs (DecidableEq Single)
  | init => inferInstanceAs (DecidableEq Fill)
  | seeds => inferInstanceAs (DecidableEq (List SeedSettings))
  | checkpointPath | resumeFrom | outputFile => inferInstanceAs (DecidableEq String)
  | maxSteps | maxDist | width | height | epochs | speed | reportInterval | checkpointInterval
  | metricsInterval | brotliQuality => inferInstanceAs (DecidableEq UInt32)

/-- The value of a slot. -/
def read : (slot : Slot) → Settings → slot.Value
  | seed, s => s.world.seed
  | fixedShuffle, s => s.world.fixedShuffle
  | maxSteps, s => s.world.maxSteps
  | maxDist, s => s.world.maxDist
  | rate, s => s.world.rate
  | width, s => s.world.width
  | height, s => s.world.height
  | epochs, s => s.run.epochs
  | speed, s => s.run.speed
  | init, s => s.run.init
  | reportInterval, s => s.run.reportInterval
  | seeds, s => s.seeds
  | checkpointEnabled, s => s.checkpoint.enabled
  | checkpointInterval, s => s.checkpoint.interval
  | checkpointPath, s => s.checkpoint.path
  | resumeFrom, s => s.checkpoint.resumeFrom
  | metricsEnabled, s => s.metrics.enabled
  | metricsInterval, s => s.metrics.interval
  | outputFile, s => s.metrics.outputFile
  | brotliQuality, s => s.metrics.brotliQuality

/-- The options, with the slots that they name. -/
def optionTable : List (String × Slot) := [
  ("--seed", seed), ("-s", seed), ("--max-steps", maxSteps), ("--max-dist", maxDist),
  ("-n", maxDist), ("--mutation-rate", rate), ("-m", rate), ("--width", width), ("-w", width),
  ("--height", height), ("--epochs", epochs), ("-e", epochs), ("--speed", speed),
  ("--report-interval", reportInterval), ("--checkpoint-interval", checkpointInterval),
  ("--checkpoint-dir", checkpointPath), ("--resume", resumeFrom), ("--metrics-file", outputFile)]

/-- The slot that an option names; the argument after the option is its value. -/
def ofOption? (option : String) : Option Slot := optionTable.lookup option

/-- The value that a text stands for after an option. -/
def parse : (slot : Slot) → String → Option slot.Value
  | seed, text => wideOfArgument? text
  | rate, text => rateOfArgument? text
  | maxSteps, text | maxDist, text | width, text | height, text | epochs, text | speed, text
  | reportInterval, text | checkpointInterval, text => wordOfArgument? text
  | checkpointPath, text | resumeFrom, text | outputFile, text => some text
  | _, _ => none

/-- The switches, with the slots that they name. -/
def switchTable : List (String × Slot) := [
  ("--random-shuffle", fixedShuffle), ("--metrics", metricsEnabled)]

/-- The slot that a switch names. -/
def ofSwitch? (argument : String) : Option Slot := switchTable.lookup argument

/-- The value that an argument gives to a slot by being there. -/
def switched? (argument : String) : (slot : Slot) → Option slot.Value
  | fixedShuffle => if argument = "--random-shuffle" then some false else none
  | checkpointEnabled =>
    if argument = "--checkpoint-dir" ∨ argument = "--checkpoint-interval" then some true else none
  | metricsEnabled =>
    if argument = "--metrics" ∨ argument = "--metrics-file" then some true else none
  | _ => none

end Slot

/-- Arguments that belong together. -/
inductive ArgumentGroup
  | load (flag : String) (path : Path)
  | assign (option value : String)
  | switch (argument : String)
deriving DecidableEq

namespace ArgumentGroup

/-- The arguments of a group. -/
def arguments : ArgumentGroup → List String
  | load flag path => [flag, path]
  | assign option value => [option, value]
  | switch argument => [argument]

/-- What a group names: the slot that it is there for. -/
def Names : ArgumentGroup → Slot → Prop
  | load .., _ => False
  | assign option _, slot => Slot.ofOption? option = some slot
  | switch argument, slot => Slot.ofSwitch? argument = some slot

/-- What a group gives to a slot: the value of the slot that it names, and what it switches. -/
def gives? : ArgumentGroup → (slot : Slot) → Option slot.Value
  | load .., _ => none
  | assign option value, slot =>
    if Slot.ofOption? option = some slot then slot.parse value else slot.switched? option
  | switch argument, slot => slot.switched? argument

/-- The arguments that the first look acts on, wherever they stand. -/
def reserved : List String := ["--config", "-c", "--help", "--generate-config"]

/-- A whole group: a flag with a file, an option that is known with a value that it accepts and that
is not taken for something else, or a switch that is known. -/
inductive Complete : ArgumentGroup → Prop
  | load {flag : String} (path : Path) : isLoadFlag flag = true → Complete (load flag path)
  | assign {option value : String} {slot : Slot} : Slot.ofOption? option = some slot →
      (slot.parse value).isSome → value ∉ reserved → Complete (assign option value)
  | switch {argument : String} {slot : Slot} : Slot.ofSwitch? argument = some slot →
      Complete (switch argument)

/-- Groups that do not name the same slot and do not both load a file. -/
def Apart : ArgumentGroup → ArgumentGroup → Prop
  | load .., load .. => False
  | a, b => ∀ slot, a.Names slot → ¬ b.Names slot

end ArgumentGroup

/-- Settings in which every slot holds what a group gives to it, or else what it held before. -/
structure Overridden (groups : List ArgumentGroup) (base final : Settings) : Prop where
  given : ∀ group ∈ groups, ∀ slot a, group.gives? slot = some a → slot.read final = a
  kept : ∀ slot, (∀ group ∈ groups, group.gives? slot = none) → slot.read final = slot.read base

/-- The settings that a command line starts from: those in the file of a group that loads one, and
the standard ones if no group does. -/
structure StartsFrom (tree : FileTree) (groups : List ArgumentGroup) (base : Settings) : Prop where
  loaded : ∀ flag path, .load flag path ∈ groups → Settings.ofFile tree path = .ok base
  standard : (∀ flag path, .load flag path ∉ groups) → base = .standard

end TapeLife
