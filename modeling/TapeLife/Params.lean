import TapeLife.Decimal.Shortest
import TapeLife.Torus

/-!
# Params — what a soup is run with

Parameters are fixed for a run.  `Params.fault?` finds the first thing wrong with them, and its
causes have one wording each (`ParamsError.message`).  Nothing is wrong exactly if they are `Valid`
(`Params.fault?_eq_none_iff`).
-/

namespace TapeLife

/-- Parameters of a soup. -/
structure Params where
  seed : UInt64
  /-- Whether pairing depends on nothing but epoch and shape. -/
  fixedShuffle : Bool
  /-- Steps that a cell may run in one epoch. -/
  maxSteps : UInt32
  /-- How far away a partner may be; at zero there are no partners. -/
  maxDist : UInt32
  /-- The chance that a byte is replaced in one epoch. -/
  rate : Single
  width : UInt32
  height : UInt32
deriving DecidableEq, Repr

/-- What can be wrong with parameters. -/
inductive ParamsError
  | noCells (width height : UInt32)
  | tooManyCells (width height : UInt32)
  | rateOutOfRange (rate : Single)
  | distTooLarge (dist : UInt32)
deriving DecidableEq, Repr

/-- The largest radius of a window. -/
def maxDistLimit : UInt32 := 32768

/-- The largest number of cells: thirty-one bits count them. -/
def maxCells : Nat := 0x7fffffff

/-- Numbers in messages have all their digits in place and no ending. -/
def messageStyle : NumberStyle :=
  { tie := .up, isPositional := fun _ => true, wholeEnd := "", nan := "NaN", infinity := "inf" }

/-- The wording of a cause. -/
def ParamsError.message : ParamsError → String
  | .noCells width height => s!"grid dimensions must be non-zero, got {width}x{height}"
  | .tooManyCells width height => s!"grid {width}x{height} has too many cells"
  | .rateOutOfRange rate =>
    s!"background_mutation_rate must be within [0, 1], got {messageStyle.render rate}"
  | .distTooLarge dist => s!"max_dist {dist} exceeds limit {maxDistLimit}"

namespace Params

/-- What a soup is run with unless told otherwise. -/
def standard : Params :=
  { seed := 0, fixedShuffle := true, maxSteps := 256, maxDist := 30, rate := ⟨0x3cc49ba6⟩
    width := 196, height := 120 }

/-- The torus of the cells. -/
def torus (p : Params) : Torus := ⟨p.width.toNat, p.height.toNat⟩

/-- The number of cells. -/
def cellCount (p : Params) : Nat := p.torus.area

/-- The first thing wrong with the parameters. -/
def fault? (p : Params) : Option ParamsError :=
  if p.width = 0 ∨ p.height = 0 then some (.noCells p.width p.height)
  else if maxCells < p.cellCount then some (.tooManyCells p.width p.height)
  else if !p.rate.isFraction then some (.rateOutOfRange p.rate)
  else if maxDistLimit < p.maxDist then some (.distTooLarge p.maxDist)
  else none

/-- Parameters that a soup can be run with. -/
structure Valid (p : Params) : Prop where
  width_pos : 0 < p.width.toNat
  height_pos : 0 < p.height.toNat
  cellCount_le : p.cellCount ≤ maxCells
  rate_isFraction : p.rate.isFraction = true
  maxDist_le : p.maxDist ≤ maxDistLimit

/-- **Nothing is wrong with parameters exactly if they are valid.** -/
theorem fault?_eq_none_iff (p : Params) : p.fault? = none ↔ p.Valid := by
  have hw : p.width = 0 ↔ ¬ 0 < p.width.toNat := by
    rw [← UInt32.toNat_inj]; simp
  have hh : p.height = 0 ↔ ¬ 0 < p.height.toNat := by
    rw [← UInt32.toNat_inj]; simp
  simp only [fault?]
  split
  · rename_i h
    rw [hw, hh] at h
    exact ⟨nofun, fun v => (h.elim (· v.width_pos) (· v.height_pos)).elim⟩
  · rename_i h
    rw [hw, hh, not_or, Classical.not_not, Classical.not_not] at h
    split
    · rename_i h'
      exact ⟨nofun, fun v => absurd v.cellCount_le (Nat.not_le.2 h')⟩
    · rename_i h'
      split
      · rename_i hr
        exact ⟨nofun, fun v => by simp [v.rate_isFraction] at hr⟩
      · rename_i hr
        split
        · rename_i hd
          exact ⟨nofun, fun v => absurd v.maxDist_le (UInt32.not_le.2 hd)⟩
        · rename_i hd
          exact ⟨fun _ => ⟨h.1, h.2, Nat.not_lt.1 h', by simpa using hr, UInt32.not_lt.1 hd⟩,
            fun _ => rfl⟩

/-- Whether two sets of parameters agree, rates as numbers. -/
def same (p q : Params) : Bool :=
  p.rate.same q.rate && { p with rate := q.rate } == q

end Params

end TapeLife
