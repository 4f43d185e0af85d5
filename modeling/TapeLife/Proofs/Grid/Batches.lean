import TapeLife.Proofs.Grid.Epoch
import TapeLife.Proofs.Saved.Soup

/-!
# Proofs/Grid/Batches — batches and checkpoints leave no trace

    g ──a epochs──▸ first ──b epochs──▸ last
                      │                   ▴
                      └─save──▸ bytes ──load, b epochs

An epoch is a function of the soup alone if its key is fixed, so some epochs are the same in one
batch and in two (`advance_add`, `compute_add`).  A soup stays well-formed from epoch to epoch
(`WellFormed.advance`), and a well-formed soup is all in its bytes, so it may be saved and loaded in
between (`compute_resumed`).
-/

namespace TapeLife

namespace Grid

variable {g : Grid}

/-! ## Soups stay well-formed -/

theorem size_foldl_writeBack (outcomes : List (Pair × (Cell × Cell) × Totals)) (soup : Array Cell) :
    (outcomes.foldl (fun soup o => writeBack soup o.1 o.2.1) soup).size = soup.size := by
  induction outcomes generalizing soup with
  | nil => rfl
  | cons o outcomes ih =>
    rw [List.foldl_cons, ih, writeBack, Array.size_setIfInBounds, Array.size_setIfInBounds]

theorem size_cells_stepWith (g : Grid) (key : UInt64) :
    (g.stepWith key).1.cells.size = g.cells.size := by
  rw [cells_stepWith, Array.size_map, size_foldl_writeBack]
  simp [runSolo]

/-- An epoch keeps the parameters and the number of cells, so it keeps the soup well-formed. -/
theorem WellFormed.stepWith (hg : g.WellFormed) (key : UInt64) : (g.stepWith key).1.WellFormed where
  valid := hg.valid
  size_cells := (size_cells_stepWith g key).trans hg.size_cells

theorem WellFormed.step (hg : g.WellFormed) (entropy : UInt64) : (g.step entropy).1.WellFormed :=
  hg.stepWith _

theorem params_advance (entropy : Nat → UInt64) (speed : Nat) (g : Grid) :
    (g.advance entropy speed).1.params = g.params := by
  induction speed generalizing entropy g with
  | zero => rfl
  | succ speed ih => exact ih _ _

/-- **A soup stays well-formed** for any number of epochs. -/
theorem WellFormed.advance (hg : g.WellFormed) (entropy : Nat → UInt64) (speed : Nat) :
    (g.advance entropy speed).1.WellFormed := by
  induction speed generalizing entropy g with
  | zero => exact hg
  | succ speed ih => exact ih (hg.step _) _

/-! ## Entropy that nobody asks for -/

theorem key_of_fixedShuffle (hfix : g.params.fixedShuffle = true) (entropy : UInt64) :
    g.key entropy = shapeKey g.epoch g.params.width g.params.height := by
  rw [key, epochKey, hfix]
  rfl

/-- **Under a fixed shuffle the epochs of a soup are a function of the soup.** -/
theorem advance_of_fixedShuffle (hfix : g.params.fixedShuffle = true) (e e' : Nat → UInt64)
    (speed : Nat) : g.advance e speed = g.advance e' speed := by
  induction speed generalizing e e' g with
  | zero => rfl
  | succ speed ih =>
    have hstep : g.step (e 0) = g.step (e' 0) := by
      rw [step, step, key_of_fixedShuffle hfix, key_of_fixedShuffle hfix]
    have hfix' : (g.step (e' 0)).1.params.fixedShuffle = true := hfix
    rw [Grid.advance, Grid.advance, hstep]
    simp only [ih hfix' (fun i => e (i + 1)) fun i => e' (i + 1)]

theorem compute_of_fixedShuffle (hfix : g.params.fixedShuffle = true) (e e' : Nat → UInt64)
    (speed : Nat) : g.compute e speed = g.compute e' speed := by
  rw [compute, compute, advance_of_fixedShuffle hfix e e']

/-! ## Batches -/

/-- The second batch goes on with the entropy where the first one stopped. -/
theorem advance_add (entropy : Nat → UInt64) (a b : Nat) (g : Grid) :
    g.advance entropy (a + b) =
      let first := g.advance entropy a
      let rest := first.1.advance (fun i => entropy (a + i)) b
      (rest.1, first.2 ++ rest.2) := by
  induction a generalizing entropy g with
  | zero => simp [Grid.advance]
  | succ a ih =>
    have hshift : (fun i => entropy (a + 1 + i)) = fun i => entropy (a + i + 1) := by
      funext i
      rw [Nat.add_right_comm]
    rw [Nat.add_right_comm, Grid.advance, Grid.advance, hshift]
    simp only [ih, List.cons_append]

/-- **The counts of two batches are the count of one.** -/
theorem compute_add (entropy : Nat → UInt64) (a b : Nat) (g : Grid) :
    g.compute entropy (a + b) =
      let first := g.compute entropy a
      let rest := first.1.compute (fun i => entropy (a + i)) b
      (rest.1, first.2 + rest.2) := by
  simp only [compute, advance_add, List.map_append, Totals.sum_append]

/-- One more epoch is a step from where the epochs before it have come to. -/
theorem compute_succ (entropy : Nat → UInt64) (k : Nat) (g : Grid) :
    (g.compute entropy (k + 1)).1 = ((g.compute entropy k).1.step (entropy k)).1 := by
  rw [compute_add]
  rfl

/-! ## Checkpoints -/

/-- A well-formed soup is loaded from its own bytes, whatever was there before. -/
theorem load_save (hg : g.WellFormed) (h : Grid) : h.load g.save = (g, none) := by
  rw [load, ofSaved_save hg]

/-- **Batches and checkpoints leave no trace under a fixed shuffle.**  Two batches end in the soup
and in the counts that one batch of all the epochs ends in; and whoever loads the bytes that are
saved between the two, in place of any soup, ends in that soup as well.  Entropy is whatever it is,
and so are the locks and the epoch at the start. -/
theorem compute_resumed (hg : g.WellFormed) (hfix : g.params.fixedShuffle = true) (a b : Nat)
    (e₁ e₂ e₃ e₄ : Nat → UInt64) (h : Grid) :
    let first := g.compute e₁ a
    let rest := first.1.compute e₂ b
    let loaded := h.load first.1.save
    (rest.1, first.2 + rest.2) = g.compute e₃ (a + b) ∧
      loaded.2 = none ∧ (loaded.1.compute e₄ b).1 = (g.compute e₃ (a + b)).1 := by
  intro first rest loaded
  have hfirst : first.1.WellFormed := hg.advance e₁ a
  have hfixed : first.1.params.fixedShuffle = true := by
    rw [← hfix]
    exact congrArg Params.fixedShuffle (params_advance e₁ a g)
  have hbatches : (rest.1, first.2 + rest.2) = g.compute e₃ (a + b) := by
    rw [compute_of_fixedShuffle hfix e₃ e₁, compute_add]
    simp only [rest, compute_of_fixedShuffle hfixed e₂ fun i => e₁ (a + i)]
    rfl
  have hloaded : loaded = (first.1, none) := load_save hfirst h
  refine ⟨hbatches, by rw [hloaded], ?_⟩
  rw [← hbatches, hloaded]
  change (first.1.compute e₄ b).1 = rest.1
  rw [compute_of_fixedShuffle hfixed e₄ e₂]

/-- Two epochs and three, from a soup with a stale lock that counts no further, over itself. -/
theorem compute_resumed_square :
    square.WellFormed ∧ square.params.fixedShuffle = true ∧
      let first := square.compute (fun _ => 0) 2
      let rest := first.1.compute (fun _ => 1) 3
      let loaded := square.load first.1.save
      (rest.1, first.2 + rest.2) = square.compute (fun _ => 2) 5 ∧
        loaded.2 = none ∧
        (loaded.1.compute (fun _ => 3) 3).1 = (square.compute (fun _ => 2) 5).1 :=
  ⟨wellFormed_square, rfl, compute_resumed wellFormed_square rfl 2 3 _ _ _ _ square⟩

end Grid

end TapeLife
