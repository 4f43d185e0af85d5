import TapeLife.Census.Basic
import TapeLife.Checkpoint.Queue
import TapeLife.Grid.Epoch
import TapeLife.Settings.Check

/-!
# Session/Event — what a run reports

Everything that a run reports is an `Event` with a level and a wording.  A reader sees the events up
to a level of detail.  A run as a function of its settings has no clock and no compressor: where a
measured quantity would stand, `unmeasured` stands.
-/

namespace TapeLife

/-- How much an event matters, from the most to the least. -/
inductive Level
  | error
  | warn
  | info
  | debug
  | trace
deriving DecidableEq, Repr

namespace Level

/-- The rank of a level, from the most important one up. -/
def rank : Level → Nat
  | .error => 1
  | .warn => 2
  | .info => 3
  | .debug => 4
  | .trace => 5

/-- The label of a level. -/
def label : Level → String
  | .error => "ERROR"
  | .warn => "WARN"
  | .info => "INFO"
  | .debug => "DEBUG"
  | .trace => "TRACE"

/-- The rank up to which events are shown, by its name; ordinary events unless it is known. -/
def shownRank : String → Nat
  | "off" => 0
  | "error" => 1
  | "warn" => 2
  | "debug" => 4
  | "trace" => 5
  | _ => 3

end Level

/-- What stands for a quantity that was not measured. -/
def unmeasured : String := "#"

/-- Something that a run reports. -/
inductive Event
  | settingsLoaded (path : Path)
  | doubt (warning : Warning)
  | reset (params : Params) (fill : Fill)
  | resumed (path : Path) (epoch width height : UInt32)
  | paramsDiffer
  | nothingToResume (directory : Path)
  | banner
  | shape (params : Params)
  | dose (params : Params)
  | length (epochs speed : UInt32)
  | sample (number : Nat) (tape : Tape)
  | epochPlanned (report : EpochReport)
  | locksReleased (report : EpochReport)
  | epochDone (report : EpochReport)
  | progress (epoch : UInt32) (totals : Totals)
  | census (census : Census)
  | rowFailed (cause : FileError)
  | saved (path : Path) (epoch : UInt32)
  | saveFailed (path : Path) (cause : SoupError)
  | savesFailed (count : Nat)
  | complete (epochs : Nat) (totals : Totals)
  | failed (message : String)

/-- A number in a column of a width, at the right. -/
def padLeft (width n : Nat) : String :=
  let ds := digits n
  String.ofList (List.replicate (width - ds.length) ' ' ++ ds)

/-- The word for what the tapes of a reset soup hold. -/
def Fill.name : Fill → String
  | .zero => "Zero"
  | .random => "Random"

/-- The line of a census in a report. -/
def Census.reportText (c : Census) : String :=
  let instructions := fixedText 1 (.ofFloat (c.instructionFraction * 100))
  s!"epoch {c.epoch}: ratio {unmeasured}, h0 {fixedText 3 (.ofFloat c.entropy)}, "
    ++ s!"instructions {instructions}%, live {c.liveTapes}/{c.totalTapes}, top {c.topText}"

namespace Event

/-- How much an event matters. -/
def level : Event → Level
  | .saveFailed .. | .failed .. => .error
  | .doubt .. | .paramsDiffer | .nothingToResume .. | .rowFailed .. | .savesFailed .. => .warn
  | .reset .. | .locksReleased .. => .debug
  | .epochPlanned .. | .epochDone .. => .trace
  | _ => .info

/-- The wording of an event. -/
def message : Event → String
  | .settingsLoaded path => s!"loaded config from {path}"
  | .doubt warning => s!"config: {warning.message}"
  | .reset p fill =>
    s!"reset {p.width}x{p.height} grid with seed {p.seed} ({fill.name} tapes)"
  | .resumed path epoch width height =>
    s!"resumed from {path} at epoch {epoch} ({width}x{height})"
  | .paramsDiffer => "checkpoint parameters differ from the config, using the checkpoint's"
  | .nothingToResume directory => s!"no checkpoint found in {directory}, starting fresh"
  | .banner => "Cell Soup Simulation"
  | .shape p => s!"  grid {p.width}x{p.height} ({p.cellCount} cells), seed {p.seed}"
  | .dose p =>
    let shuffle := if p.fixedShuffle then "fixed" else "random"
    s!"  max_steps {p.maxSteps}, max_dist {p.maxDist}, "
      ++ s!"mutation rate {messageStyle.render p.rate}, {shuffle} shuffle"
  | .length epochs speed => s!"  epochs {epochs} (speed {speed}), {unmeasured} threads"
  | .sample number tape => s!"  [{padLeft 3 number}] {Instruction.listing tape.toList}"
  | .epochPlanned r =>
    s!"epoch {r.epoch}: planned {r.totals.interactions} pairs, "
      ++ s!"{r.totals.droppedClaims} dropped claims"
  | .locksReleased r => s!"released {r.staleLocks} stale cell locks at epoch {r.epoch}"
  | .epochDone r =>
    s!"epoch {r.next} done: {r.totals.interactions} pairs, {r.totals.soloRuns} solo, "
      ++ s!"{r.totals.ops} ops, {r.totals.mutations} mutations"
  | .progress epoch t =>
    s!"epoch {epoch}: {unmeasured} epochs/s, {t.interactions} pairs, {t.ops} ops, "
      ++ s!"{t.mutations} mutations, {t.droppedClaims} dropped claims"
  | .census c => c.reportText
  | .rowFailed cause => s!"could not write metrics row: {cause.message}"
  | .saved path epoch => s!"checkpoint saved: {path} (epoch {epoch})"
  | .saveFailed path cause => s!"checkpoint {path} failed: {cause.message}"
  | .savesFailed count => s!"{count} checkpoint writes failed"
  | .complete epochs t =>
    s!"Simulation complete: {epochs} epochs in {unmeasured}s ({t.interactions} interactions, "
      ++ s!"{t.soloRuns} solo runs, {t.halted} halted)"
  | .failed message => message

/-- An event as a line of the log. -/
def line (e : Event) : String := e.level.label ++ " " ++ e.message

/-- The events of an epoch, in order. -/
def ofEpoch (r : EpochReport) : List Event :=
  (if r.paired then [.epochPlanned r] else [])
    ++ (if r.staleLocks = 0 then [] else [.locksReleased r])
    ++ [.epochDone r]

/-- The event of a snapshot that was handled. -/
def ofWrite (r : WriteReport) : Event :=
  match r.failure with
  | none => .saved r.path r.epoch
  | some cause => .saveFailed r.path (.file cause)

end Event

end TapeLife
