import TapeLife.Grid.Epoch
import TapeLife.Saved.Soup

/-!
# Grid/History — what happens to a soup

A soup is created from parameters, and from then on it changes: it starts over, programs are written
onto it, epochs pass, another soup is loaded in its place.  A change that fails leaves the soup as
it is (`Grid.apply`); a history is a list of changes (`Grid.after`).  Creating is no change but
where a history begins: what is created later is another soup with a history of its own.
-/

namespace TapeLife

/-- Something done to a soup. -/
inductive Change
  | reset (seed : UInt64) (fill : Fill)
  | set (x y : Int32) (program : Program)
  | setBuiltIn (x y : Int32) (id : Int32)
  | compute (entropy : Nat → UInt64) (speed : Nat)
  | load (bytes : List UInt8)

namespace Grid

/-- The soup that an operation gives, or the old one and the cause. -/
def orStay (g : Grid) : Except SoupError Grid → Grid × Option SoupError
  | .ok h => (h, none)
  | .error cause => (g, some cause)

/-- The soup after a change, and the cause if the change failed. -/
def apply (g : Grid) : Change → Grid × Option SoupError
  | .reset seed fill => (g.reset seed fill, none)
  | .set x y program => g.orStay (g.set x y program)
  | .setBuiltIn x y id => g.orStay (g.setBuiltIn x y id)
  | .compute entropy speed => ((g.compute entropy speed).1, none)
  | .load bytes => g.load bytes

/-- The soup after some changes, one after another. -/
def after (g : Grid) (changes : List Change) : Grid :=
  changes.foldl (fun soup change => (soup.apply change).1) g

end Grid

end TapeLife
