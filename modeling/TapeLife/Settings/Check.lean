import TapeLife.Settings.Basic

/-!
# Settings/Check — settings that a run refuses, and settings that it doubts

`Settings.check` goes through the sections in order.  It stops at the first thing that makes a run
impossible, and otherwise lists what is probably not meant.
-/

namespace TapeLife

/-- What makes a run impossible. -/
inductive SettingsError
  | world (cause : ParamsError)
  | speedZero
  | seedOutside (number : Nat) (x y : Int32) (width height : UInt32)
  | seedUnknown (number : Nat) (cause : SoupError)
  | checkpointPathMissing
  | metricsIntervalZero
deriving DecidableEq

/-- What is probably not meant. -/
inductive Warning
  | noEpochs
  | noSteps
  | windowSpansGrid (dist width height : UInt32)
  | onlyFinalCheckpoint
  | checkpointsBetweenBatches (interval speed : UInt32)
  | qualityClamped (quality : UInt32)
deriving DecidableEq

/-- The wording of a refusal. -/
def SettingsError.message : SettingsError → String
  | .world cause => invalidParamsMessage cause
  | .speedZero => "run.speed must be greater than 0"
  | .seedOutside number x y width height =>
    s!"seeds[{number}] at ({x}, {y}) is outside the {width}x{height} grid"
  | .seedUnknown number cause => s!"seeds[{number}]: {cause.message}"
  | .checkpointPathMissing => "checkpoint.path must be set when checkpointing is enabled"
  | .metricsIntervalZero => "metrics.interval must be greater than 0"

/-- The wording of a doubt. -/
def Warning.message : Warning → String
  | .noEpochs => "run.epochs is 0, nothing will be computed"
  | .noSteps => "max_steps is 0, tapes will only change through mutation"
  | .windowSpansGrid dist width height =>
    s!"max_dist {dist} spans the whole {width}x{height} grid, interactions are no longer local"
  | .onlyFinalCheckpoint => "checkpoint.interval is 0, only the final state will be saved"
  | .checkpointsBetweenBatches interval speed =>
    s!"checkpoint.interval {interval} is not a multiple of run.speed {speed}, "
      ++ "checkpoints land on the next batch boundary"
  | .qualityClamped quality =>
    s!"metrics.brotli_quality {quality} is outside 1-11 and will be clamped"

/-- A doubt, if there is reason for it. -/
def Warning.when (doubtful : Bool) (warning : Warning) : List Warning :=
  if doubtful then [warning] else []

namespace Settings

/-- Whether a window is as wide as the grid is in its shorter direction. -/
def windowSpansGrid (p : Params) : Bool :=
  p.maxDist != 0 && min p.width.toNat p.height.toNat ≤ 2 * p.maxDist.toNat + 1

/-- Doubts about the parameters and the length of a run. -/
def worldWarnings (s : Settings) : List Warning :=
  Warning.when (s.run.epochs == 0) .noEpochs
    ++ Warning.when (s.world.maxSteps == 0) .noSteps
    ++ Warning.when (windowSpansGrid s.world)
      (.windowSpansGrid s.world.maxDist s.world.width s.world.height)

/-- The first seed that cannot be planted. -/
def seedFault? (p : Params) : (number : Nat) → List SeedSettings → Option SettingsError
  | _, [] => none
  | number, seed :: rest =>
    if 0 ≤ seed.x.toInt ∧ seed.x.toInt < p.width.toNat ∧ 0 ≤ seed.y.toInt
        ∧ seed.y.toInt < p.height.toNat then
      match seed.toProgram with
      | .ok _ => seedFault? p (number + 1) rest
      | .error cause => some (.seedUnknown number cause)
    else some (.seedOutside number seed.x seed.y p.width p.height)

/-- What is wrong with the snapshots, or doubts about them. -/
def checkCheckpoint (s : Settings) : Except SettingsError (List Warning) :=
  if !s.checkpoint.enabled then .ok []
  else if s.checkpoint.path = "" then .error .checkpointPathMissing
  else if s.checkpoint.interval = 0 then .ok [.onlyFinalCheckpoint]
  else .ok (Warning.when (s.checkpoint.interval % s.run.speed != 0)
    (.checkpointsBetweenBatches s.checkpoint.interval s.run.speed))

/-- What is wrong with the censuses, or doubts about them. -/
def checkMetrics (s : Settings) : Except SettingsError (List Warning) :=
  if !s.metrics.enabled then .ok []
  else if s.metrics.interval = 0 then .error .metricsIntervalZero
  else .ok (Warning.when (s.metrics.brotliQuality < 1 || 11 < s.metrics.brotliQuality)
    (.qualityClamped s.metrics.brotliQuality))

/-- The first thing that makes a run impossible, or all doubts. -/
def check (s : Settings) : Except SettingsError (List Warning) := do
  match s.world.fault? with
  | some cause => throw (.world cause)
  | none =>
    if s.run.speed = 0 then throw .speedZero
    match seedFault? s.world 0 s.seeds with
    | some e => throw e
    | none =>
      let checkpointWarnings ← s.checkCheckpoint
      let metricsWarnings ← s.checkMetrics
      return s.worldWarnings ++ checkpointWarnings ++ metricsWarnings

end Settings

end TapeLife
