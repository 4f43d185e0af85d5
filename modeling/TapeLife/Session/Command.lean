import TapeLife.Session.Arguments
import TapeLife.Session.Help
import TapeLife.Session.Run

/-!
# Session/Command — the command line of a run

A command line is followed to its end: it shows the help, writes a template, or runs.  Whatever goes
wrong is the last event, and the exit status says so.
-/

namespace TapeLife

/-- Everything that a command does. -/
structure CommandOutcome where
  exitCode : Nat
  stdout : String
  /-- The reports of the run itself. -/
  events : List Event
  /-- The reports of the worker that writes snapshots. -/
  writerEvents : List Event
  tree : FileTree

namespace Command

/-- A command that ends with a fault. -/
def fail (tree : FileTree) (stdout : String) (events : List Event) (message : String) :
    CommandOutcome :=
  ⟨1, stdout, events ++ [.failed message], [], tree⟩

/-- What the help text is shown for. -/
def helpFor : ArgumentsError → String
  | .unknown _ => helpText
  | _ => ""

/-- The settings of a command line after both looks, with all doubts. -/
def settle (arguments : List String) (loaded : Settings) :
    Except ArgumentsError (Settings × List Warning) := do
  let settings ← applyArguments arguments loaded
  match settings.check with
  | .ok warnings => return (settings, warnings)
  | .error cause => throw (.refused cause)

/-- Follows a command line. -/
def follow (arguments : List String) (entropy : Nat → UInt64) (tree : FileTree) : CommandOutcome :=
  let (paths, outcome) := lookFirst tree arguments .standard
  let loads := paths.map Event.settingsLoaded
  match outcome with
  | .failed cause => fail tree "" loads cause.message
  | .help => ⟨0, helpText, loads, [], tree⟩
  | .template path =>
    match Settings.template.writeTo tree path with
    | (tree, none) => ⟨0, s!"Generated config template: {path}\n", loads, [], tree⟩
    | (tree, some cause) => fail tree "" loads (ArgumentsError.template cause).message
  | .goOn loaded =>
    match settle arguments loaded with
    | .error cause => fail tree (helpFor cause) loads cause.message
    | .ok (settings, warnings) =>
      let events := loads ++ warnings.map Event.doubt
      match Session.run settings entropy tree with
      | (tree, more, _, some cause) => fail tree "" (events ++ more) cause.message
      | (tree, more, writer, none) => ⟨0, "", events ++ more, writer, tree⟩

end Command

end TapeLife
