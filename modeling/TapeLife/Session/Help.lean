/-!
# Session/Help — the help text of the command line
-/

namespace TapeLife

/-- The variable of the environment that says which events are shown. -/
def logVariable : String := "RUST_LOG"

/-- The lines of the help text. -/
def helpLines : List String := [
  "Cell Soup Simulation",
  "",
  "USAGE:",
  "    cell-soup [OPTIONS]",
  "    cell-soup --config config.yaml",
  "    cell-soup --generate-config [output.yaml]",
  "",
  "CONFIG FILE:",
  "    -c, --config <FILE>        Load settings from YAML config file",
  "    --generate-config [FILE]   Generate template config (default: config.yaml)",
  "",
  "WORLD (override config file values):",
  "    -w, --width <N>            Grid width (default: 196)",
  "    --height <N>               Grid height (default: 120)",
  "    -s, --seed <N>             Random seed (default: 0)",
  "    --max-steps <N>            VM steps per cell per epoch (default: 256)",
  "    -n, --max-dist <N>         Interaction radius, 0 = no interaction (default: 30)",
  "    -m, --mutation-rate <P>    Per-byte mutation probability (default: 0.024)",
  "    --random-shuffle           Randomize pairing order every run",
  "",
  "RUN:",
  "    -e, --epochs <N>           Total epochs (default: 10000)",
  "    --speed <N>                Epochs per compute batch (default: 16)",
  "    --report-interval <N>      Log progress every N epochs, 0 = never (default: 256)",
  "",
  "CHECKPOINTS:",
  "    --checkpoint-dir <DIR>     Enable checkpoints in DIR",
  "    --checkpoint-interval <N>  Checkpoint every N epochs, 0 = only at end",
  "    --resume <FILE|latest>     Resume from a saved world",
  "",
  "METRICS:",
  "    --metrics                  Log soup statistics",
  "    --metrics-file <FILE>      Also write statistics as CSV",
  "",
  "    --help                     Print this help message",
  "",
  s!"Log level is controlled by {logVariable} (default: info)."]

/-- The help text. -/
def helpText : String := String.join (helpLines.map (· ++ "\n"))

end TapeLife
