import TapeLife.Decimal.Reading
import TapeLife.Files.Tree

/-!
# Checkpoint/Name — files named by their epoch

A checkpoint is a file whose name holds its epoch in decimal.  `checkpointPath` writes such names
and `checkpointEpoch?` reads them; what it reads is more than what is written, as a plus sign and
leading zeros are allowed.  A directory's checkpoints are listed by epoch, and by name where epochs
agree.
-/

namespace TapeLife

/-- What the name of a checkpoint begins with. -/
def checkpointStem : String := "checkpoint_epoch_"

/-- What the name of a checkpoint ends with. -/
def checkpointEnding : String := ".bfsw"

/-- The name of the checkpoint of an epoch. -/
def checkpointName (epoch : UInt32) : String :=
  checkpointStem ++ decimalText epoch.toNat ++ checkpointEnding

/-- The checkpoint of an epoch inside a directory. -/
def checkpointPath (directory : Path) (epoch : UInt32) : Path :=
  Path.join directory (checkpointName epoch)

/-- What is left of a list without a given beginning. -/
def dropStart? (start cs : List Char) : Option (List Char) :=
  if start.isPrefixOf cs then some (cs.drop start.length) else none

/-- What is left of a list without a given end. -/
def dropEnd? (stop cs : List Char) : Option (List Char) :=
  if stop.isSuffixOf cs then some (cs.take (cs.length - stop.length)) else none

/-- The epoch in the name of a checkpoint. -/
def checkpointEpoch? (name : String) : Option UInt32 := do
  let rest ← dropStart? checkpointStem.toList name.toList
  let middle ← dropEnd? checkpointEnding.toList rest
  let n ← readNatural? middle
  if n < UInt32.size then some (UInt32.ofNat n) else none

/-- Whether the first checkpoint is listed before the second, or is the same. -/
def listedBefore (a b : UInt32 × Path) : Bool := a.1 < b.1 || (a.1 == b.1 && a.2 ≤ b.2)

namespace FileTree

/-- The checkpoints in a directory with their epochs, the oldest first. -/
def checkpoints (tree : FileTree) (directory : Path) : Except FileError (List (UInt32 × Path)) := do
  let names ← tree.list directory
  let found := names.filterMap fun name =>
    (checkpointEpoch? name).map fun epoch => (epoch, Path.join directory name)
  return found.mergeSort listedBefore

/-- The checkpoint of the latest epoch. -/
def latestCheckpoint? (tree : FileTree) (directory : Path) : Option Path :=
  match tree.checkpoints directory with
  | .ok found => found.getLast?.map (·.2)
  | .error _ => none

end FileTree

end TapeLife
