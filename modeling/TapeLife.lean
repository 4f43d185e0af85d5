import TapeLife.Bytes.LittleEndian
import TapeLife.Cell
import TapeLife.Census.Basic
import TapeLife.Census.Log
import TapeLife.Checkpoint.Name
import TapeLife.Checkpoint.Queue
import TapeLife.Checkpoint.Schedule
import TapeLife.Decimal.Basic
import TapeLife.Decimal.Fixed
import TapeLife.Decimal.Reading
import TapeLife.Decimal.Shortest
import TapeLife.Export.Arguments
import TapeLife.Export.Command
import TapeLife.Export.Hash
import TapeLife.Export.Rows
import TapeLife.Files.Output
import TapeLife.Files.Path
import TapeLife.Files.Tree
import TapeLife.Grid.Basic
import TapeLife.Grid.Epoch
import TapeLife.Grid.Error
import TapeLife.Grid.History
import TapeLife.Grid.Jobs
import TapeLife.Grid.Totals
import TapeLife.Machine.Basic
import TapeLife.Machine.Bracket
import TapeLife.Machine.Instruction
import TapeLife.Machine.Rules
import TapeLife.Machine.Run
import TapeLife.Main
import TapeLife.Mutation
import TapeLife.Number.Binary
import TapeLife.Number.Rounding
import TapeLife.Number.Single
import TapeLife.Pairing.Holders
import TapeLife.Pairing.Locks
import TapeLife.Pairing.Order
import TapeLife.Pairing.Plan
import TapeLife.Pairing.Window
import TapeLife.Params
import TapeLife.Program
import TapeLife.Proofs.Bytes.LittleEndian
import TapeLife.Proofs.Checkpoint.Directory
import TapeLife.Proofs.Checkpoint.Name
import TapeLife.Proofs.Checkpoint.Queue
import TapeLife.Proofs.Files.Path
import TapeLife.Proofs.Files.Tree
import TapeLife.Proofs.Footprint
import TapeLife.Proofs.Grid.Batches
import TapeLife.Proofs.Grid.Epoch
import TapeLife.Proofs.Grid.History
import TapeLife.Proofs.Grid.Influence
import TapeLife.Proofs.Grid.Jobs
import TapeLife.Proofs.Grid.Matching
import TapeLife.Proofs.Grid.Replicators
import TapeLife.Proofs.Grid.Timeline
import TapeLife.Proofs.Machine.Bracket
import TapeLife.Proofs.Machine.Copier
import TapeLife.Proofs.Machine.Language
import TapeLife.Proofs.Machine.Pose
import TapeLife.Proofs.Machine.Rules
import TapeLife.Proofs.Outcome
import TapeLife.Proofs.Pairing.Exclusion
import TapeLife.Proofs.Pairing.Holding
import TapeLife.Proofs.Pairing.Planning
import TapeLife.Proofs.Pairing.Stripes
import TapeLife.Proofs.Pairing.Window
import TapeLife.Proofs.Random.Cycle
import TapeLife.Proofs.Random.Filling
import TapeLife.Proofs.Saved.Header
import TapeLife.Proofs.Saved.Layout
import TapeLife.Proofs.Saved.Soup
import TapeLife.Proofs.Session.Resume
import TapeLife.Proofs.Session.Run
import TapeLife.Proofs.Session.Start
import TapeLife.Proofs.Settings.Check
import TapeLife.Proofs.Torus
import TapeLife.Random.Mix
import TapeLife.Random.Stream
import TapeLife.Saved.Header
import TapeLife.Saved.Layout
import TapeLife.Saved.Soup
import TapeLife.Session.Arguments
import TapeLife.Session.Command
import TapeLife.Session.Event
import TapeLife.Session.Help
import TapeLife.Session.Run
import TapeLife.Session.Start
import TapeLife.Settings.Basic
import TapeLife.Settings.Check
import TapeLife.Settings.Reading
import TapeLife.Settings.Writing
import TapeLife.Tape
import TapeLife.Torus
import TapeLife.Yaml.Block
import TapeLife.Yaml.Character
import TapeLife.Yaml.Cursor
import TapeLife.Yaml.Folding
import TapeLife.Yaml.Node
import TapeLife.Yaml.Plain
import TapeLife.Yaml.Properties
import TapeLife.Yaml.Quoted
import TapeLife.Yaml.Reader
import TapeLife.Yaml.Scalar
import TapeLife.Yaml.Writer
import TapeLife.Proofs.Machine.Draws
import TapeLife.Proofs.Grid.Draws
import TapeLife.Proofs.Grid.Privacy
import TapeLife.Proofs.Grid.StaleLocks
import TapeLife.Proofs.Session.Saves
import TapeLife.Proofs.Machine.Tallies
import TapeLife.Proofs.Grid.Counts
import TapeLife.Proofs.Session.Seeds
import TapeLife.Proofs.Checkpoint.Schedule
import TapeLife.Pairing.Attempts
import TapeLife.Proofs.Pairing.Attempts
import TapeLife.Proofs.Pairing.Neighbourhood
import TapeLife.Proofs.Grid.Attempts
import TapeLife.Proofs.Machine.Changes
import TapeLife.Proofs.Mutation.Chances
import TapeLife.Proofs.Number.Extended
import TapeLife.Proofs.Mutation.Passes
import TapeLife.Proofs.Grid.Storage
import TapeLife.Proofs.Saved.Reading
import TapeLife.Proofs.Saved.Corruption
import TapeLife.Proofs.Checkpoint.Listing
import TapeLife.Proofs.Random.Mix
import TapeLife.Proofs.Grid.Streams
import TapeLife.Proofs.Session.Failures
import TapeLife.Guarded.Basic
import TapeLife.Guarded.Pairing
import TapeLife.Guarded.Machine
import TapeLife.Proofs.Guarded.Machine
import TapeLife.Proofs.Guarded.Pairing
import TapeLife.Proofs.Guarded.Soup
import TapeLife.Census.Pass
import TapeLife.Proofs.Census.Counts
import TapeLife.Proofs.Census.Ranking
import TapeLife.Proofs.Export.Text
import TapeLife.Proofs.Export.Rows
import TapeLife.Proofs.Files.Output
import TapeLife.Proofs.Export.Command
import TapeLife.Session.Groups
import TapeLife.Proofs.Session.Groups
import TapeLife.Proofs.Settings.Locality
import TapeLife.Proofs.Files.Sparing
import TapeLife.Proofs.Session.Table
import TapeLife.Proofs.Number.Nearest
import TapeLife.Proofs.Number.Halfway
import TapeLife.Proofs.Number.Narrowing
import TapeLife.Proofs.Decimal.Shortest
import TapeLife.Proofs.Decimal.Text
import TapeLife.Proofs.Yaml.Plain
import TapeLife.Proofs.Yaml.Scalars
import TapeLife.Proofs.Yaml.Words
import TapeLife.Proofs.Yaml.Blocks
import TapeLife.Proofs.Yaml.Document
import TapeLife.Proofs.Settings.Values
import TapeLife.Proofs.Settings.RoundTrip
import TapeLife.Proofs.Export.Hash
import TapeLife.Proofs.Pairing.Turns
import TapeLife.Session.Options
import TapeLife.Proofs.Session.Options
import TapeLife.Settings.Schema
import TapeLife.Proofs.Settings.Defaults
import TapeLife.Proofs.Pairing.Keys
import TapeLife.Proofs.Session.Keys
