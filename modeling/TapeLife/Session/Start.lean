import TapeLife.Saved.Soup
import TapeLife.Session.Event
import TapeLife.Settings.Basic

/-!
# Session/Start — the soup that a run begins with

A run goes on from a saved soup if its settings name one that is there, and then uses the
parameters that were saved.  Otherwise it grows a soup and plants the seeds in order, so of two
seeds for one place the later one stays.
-/

namespace TapeLife

/-- The word for the latest saved soup. -/
def latestWord : String := "latest"

namespace Settings

/-- The saved soup that the settings go on from. -/
def resumePath? (s : Settings) (tree : FileTree) : Option Path :=
  if s.checkpoint.resumeFrom = "" then none
  else if s.checkpoint.resumeFrom = latestWord then tree.latestCheckpoint? s.checkpoint.path
  else some s.checkpoint.resumeFrom

/-- Plants one seed. -/
def plant (g : Grid) (seed : SeedSettings) : Except SoupError Grid := do
  g.set seed.x seed.y (← seed.toProgram)

/-- The soup of a fresh start. -/
def freshGrid (s : Settings) (g : Grid) : Except SoupError Grid :=
  s.seeds.foldlM plant (g.reset s.world.seed s.run.init)

/-- The soup that a run begins with, and what is reported on the way. -/
def startGrid (s : Settings) (tree : FileTree) : List Event × Except SoupError Grid :=
  match Grid.create s.world with
  | .error cause => ([], .error cause)
  | .ok g =>
    let grown := Event.reset s.world .zero
    match s.resumePath? tree with
    | some path =>
      match g.loadFrom tree path with
      | (_, some cause) => ([grown], .error cause)
      | (g, none) =>
        let resumed := Event.resumed path g.epoch g.params.width g.params.height
        ([grown, resumed] ++ (if g.params.same s.world then [] else [.paramsDiffer]), .ok g)
    | none =>
      let missing : List Event :=
        if s.checkpoint.resumeFrom = latestWord then [.nothingToResume s.checkpoint.path] else []
      ([grown] ++ missing ++ [.reset s.world s.run.init], s.freshGrid g)

end Settings

end TapeLife
