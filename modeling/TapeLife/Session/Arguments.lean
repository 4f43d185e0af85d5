import TapeLife.Decimal.Reading
import TapeLife.Session.Event
import TapeLife.Settings.Reading
import TapeLife.Settings.Writing

/-!
# Session/Arguments — settings from a command line

Arguments are looked at twice.  The first look loads settings from a file, or leaves with the help
or a fresh template; it takes every argument for an option except the file name after a
`--config`.  The second look overrides single settings: an `Override` takes the argument after it as
its value, a switch takes none.
-/

namespace TapeLife

/-- Why a command line cannot be followed. -/
inductive ArgumentsError
  | fileMissing
  | settings (path : Path) (cause : Settings.ReadError)
  | template (cause : FileError)
  | valueMissing (flag : String)
  | badValue (flag value : String)
  | unknown (argument : String)
  | refused (cause : SettingsError)

/-- The wording of a cause. -/
def ArgumentsError.message : ArgumentsError → String
  | .fileMissing => "--config expects a file"
  | .settings path cause =>
    "error loading config file '" ++ path ++ "': " ++ cause.message
  | .template cause =>
    s!"error writing config template: {(Settings.ReadError.file cause).message}"
  | .valueMissing flag => s!"{flag} expects a value"
  | .badValue flag value => s!"invalid value for {flag}: {value}"
  | .unknown argument => s!"unknown argument: {argument}"
  | .refused cause => s!"config validation error: {cause.message}"

/-! ## Values -/

/-- A number of thirty-two bits. -/
def wordOfArgument? (s : String) : Option UInt32 :=
  (readNatural? s.toList).bind fun n => if n < UInt32.size then some (UInt32.ofNat n) else none

/-- A number of sixty-four bits. -/
def wideOfArgument? (s : String) : Option UInt64 :=
  (readNatural? s.toList).bind fun n => if n < UInt64.size then some (UInt64.ofNat n) else none

/-- A rate, rounded once to thirty-two bits. -/
def rateOfArgument? (s : String) : Option Single :=
  (readBinary? .single s.toList).map fun x => ⟨UInt32.ofNat (x.toBits .single)⟩

/-! ## Overrides -/

/-- An option that takes the argument after it as a value. -/
structure Override where
  flags : List String
  apply : String → Settings → Option Settings

/-- An override from a reader of values and a way to put a value into the settings. -/
def Override.of {α : Type} (flags : List String) (read? : String → Option α)
    (put : α → Settings → Settings) : Override :=
  ⟨flags, fun value s => (read? value).map fun a => put a s⟩

/-- The settings with another section of parameters. -/
def Settings.mapWorld (f : Params → Params) (s : Settings) : Settings :=
  { s with world := f s.world }

/-- The settings with another section on the run. -/
def Settings.mapRun (f : RunSettings → RunSettings) (s : Settings) : Settings :=
  { s with run := f s.run }

/-- The settings with another section on the snapshots. -/
def Settings.mapCheckpoint (f : CheckpointSettings → CheckpointSettings) (s : Settings) :
    Settings :=
  { s with checkpoint := f s.checkpoint }

/-- The settings with another section on the censuses. -/
def Settings.mapMetrics (f : MetricsSettings → MetricsSettings) (s : Settings) : Settings :=
  { s with metrics := f s.metrics }

/-- The options that take a value. -/
def overrides : List Override := [
  .of ["--width", "-w"] wordOfArgument? fun a => .mapWorld fun p => { p with width := a },
  .of ["--height"] wordOfArgument? fun a => .mapWorld fun p => { p with height := a },
  .of ["--seed", "-s"] wideOfArgument? fun a => .mapWorld fun p => { p with seed := a },
  .of ["--max-steps"] wordOfArgument? fun a => .mapWorld fun p => { p with maxSteps := a },
  .of ["--max-dist", "-n"] wordOfArgument? fun a => .mapWorld fun p => { p with maxDist := a },
  .of ["--mutation-rate", "-m"] rateOfArgument? fun a => .mapWorld fun p => { p with rate := a },
  .of ["--epochs", "-e"] wordOfArgument? fun a => .mapRun fun r => { r with epochs := a },
  .of ["--speed"] wordOfArgument? fun a => .mapRun fun r => { r with speed := a },
  .of ["--report-interval"] wordOfArgument? fun a =>
    .mapRun fun r => { r with reportInterval := a },
  .of ["--checkpoint-dir"] some fun a =>
    .mapCheckpoint fun c => { c with path := a, enabled := true },
  .of ["--checkpoint-interval"] wordOfArgument? fun a =>
    .mapCheckpoint fun c => { c with interval := a, enabled := true },
  .of ["--resume"] some fun a => .mapCheckpoint fun c => { c with resumeFrom := a },
  .of ["--metrics-file"] some fun a =>
    .mapMetrics fun m => { m with outputFile := a, enabled := true }]

/-- The options that take no value. -/
def switches : List (String × (Settings → Settings)) := [
  ("--random-shuffle", .mapWorld fun p => { p with fixedShuffle := false }),
  ("--metrics", .mapMetrics fun m => { m with enabled := true })]

/-- Whether an argument loads settings from the file after it. -/
def isLoadFlag (argument : String) : Bool := argument == "--config" || argument == "-c"

/-- The second look: settings with everything overridden that the arguments name. -/
def applyArguments : (arguments : List String) → Settings → Except ArgumentsError Settings
  | [], s => .ok s
  | argument :: rest, s =>
    if isLoadFlag argument then
      match rest with
      | [] => .ok s
      | _ :: rest => applyArguments rest s
    else match overrides.find? (·.flags.contains argument) with
      | some override =>
        match rest with
        | [] => .error (.valueMissing argument)
        | value :: rest =>
          match override.apply value s with
          | some s => applyArguments rest s
          | none => .error (.badValue argument value)
      | none =>
        match switches.lookup argument with
        | some switch => applyArguments rest (switch s)
        | none => .error (.unknown argument)

/-! ## The first look -/

/-- What the first look at the arguments leads to. -/
inductive FirstLook
  /-- Go on with settings. -/
  | goOn (settings : Settings)
  /-- Show the help and leave. -/
  | help
  /-- Write a template and leave. -/
  | template (path : Path)
  | failed (cause : ArgumentsError)

/-- The file of a template unless another one is named. -/
def templatePath : Path := "config.yaml"

/-- The first look at the arguments, with the paths of the settings that were loaded. -/
def lookFirst (tree : FileTree) : (arguments : List String) → Settings → List Path × FirstLook
  | [], s => ([], .goOn s)
  | argument :: rest, s =>
    if isLoadFlag argument then
      match rest with
      | [] => ([], .failed .fileMissing)
      | path :: rest =>
        match Settings.ofFile tree path with
        | .error cause => ([], .failed (.settings path cause))
        | .ok loaded =>
          let (paths, outcome) := lookFirst tree rest loaded
          (path :: paths, outcome)
    else if argument == "--generate-config" then
      match rest with
      | path :: _ => ([], .template (if path.toList.head? == some '-' then templatePath else path))
      | [] => ([], .template templatePath)
    else if argument == "--help" then ([], .help)
    else lookFirst tree rest s

end TapeLife
