import Mathlib.Tactic.Linarith
import TapeLife.Pairing.Window

/-!
# Proofs/Pairing/Window — a window stays within its radius

An offset of the window of a radius spans at most that many columns and rows
(`windowOffset_natAbs_le`), and a shift by an offset moves a cell no further than the offset is
long, because the distance goes the short way round (`Torus.distance_shift_le`).  So every candidate
of a cell lies on the torus and within the radius (`distance_candidate_le`).
-/

namespace TapeLife

/-! ## Distances on a circle -/

namespace Torus

/-- **A walk of `step` places around a circle ends at most that far away.** -/
theorem roundDistance_le {size a : Nat} (ha : a < size) (step : Int) :
    roundDistance size a ((a + step) % size).toNat ≤ step.natAbs := by
  have hpos : (0 : Int) < size := by omega
  have hlow := Int.emod_nonneg (a + step) hpos.ne'
  have hhigh := Int.emod_lt_of_pos (a + step) hpos
  have hsplit := Int.emod_add_mul_ediv (a + step) size
  -- The number of full turns decides which way round the walk was the short one.
  rcases lt_trichotomy ((a + step) / (size : Int)) 0 with h | h | h
  · have : (size : Int) * ((a + step) / (size : Int)) ≤ -size := by nlinarith
    simp only [roundDistance]; omega
  · rw [h] at hsplit
    simp only [roundDistance]; omega
  · have : (size : Int) ≤ size * ((a + step) / (size : Int)) := by nlinarith
    simp only [roundDistance]; omega

theorem roundDistance_eq_zero {size a b : Nat} (ha : a < size) (hb : b < size)
    (h : roundDistance size a b = 0) : a = b := by
  simp only [roundDistance] at h; omega

/-! ## Places on the torus -/

variable {t : Torus}

theorem width_pos_of_lt_area {i : Nat} (hi : i < t.area) : 0 < t.width := by
  refine Nat.pos_of_ne_zero fun h => ?_
  simp [area, h] at hi

theorem column_lt (hw : 0 < t.width) (i : Nat) : t.column i < t.width := Nat.mod_lt _ hw

theorem row_lt {i : Nat} (hi : i < t.area) : t.row i < t.height := by
  rw [area, Nat.mul_comm] at hi
  exact Nat.div_lt_of_lt_mul (by rwa [Nat.mul_comm])

theorem column_index {x : Nat} (hx : x < t.width) (y : Nat) : t.column (t.index x y) = x := by
  rw [column, index, Nat.mul_comm, Nat.mul_add_mod, Nat.mod_eq_of_lt hx]

theorem row_index {x : Nat} (hx : x < t.width) (y : Nat) : t.row (t.index x y) = y := by
  rw [row, index, Nat.mul_comm, Nat.mul_add_div (by omega), Nat.div_eq_of_lt hx, Nat.add_zero]

/-- **Different places have different cells.** -/
theorem index_inj {x y x' y' : Nat} (hx : x < t.width) (hx' : x' < t.width)
    (h : t.index x y = t.index x' y') : x = x' ∧ y = y' := by
  have hcolumn := congrArg t.column h
  have hrow := congrArg t.row h
  rw [column_index hx, column_index hx'] at hcolumn
  rw [row_index hx, row_index hx'] at hrow
  exact ⟨hcolumn, hrow⟩

theorem index_lt_area {x y : Nat} (hx : x < t.width) (hy : y < t.height) :
    t.index x y < t.area := by
  have : (y + 1) * t.width ≤ t.height * t.width := Nat.mul_le_mul_right _ hy
  rw [index, area]
  linarith [Nat.succ_mul y t.width, Nat.mul_comm t.width t.height]

theorem index_column_row (t : Torus) (i : Nat) : t.index (t.column i) (t.row i) = i := by
  rw [index, column, row, Nat.mul_comm, Nat.div_add_mod]

/-- Different cells have a distance. -/
theorem distance_pos {a b : Nat} (ha : a < t.area) (hb : b < t.area) (hab : a ≠ b) :
    1 ≤ t.distance a b := by
  refine Nat.pos_of_ne_zero fun h => hab ?_
  have hw := width_pos_of_lt_area ha
  rw [distance, Nat.max_eq_zero_iff] at h
  have hcol := roundDistance_eq_zero (column_lt hw a) (column_lt hw b) h.1
  have hrow := roundDistance_eq_zero (row_lt ha) (row_lt hb) h.2
  rw [← index_column_row t a, ← index_column_row t b, hcol, hrow]

/-! ## Shifts -/

variable {i : Nat} (hi : i < t.area) (dx dy : Int)
include hi

theorem shift_column_lt : ((t.column i + dx) % t.width).toNat < t.width := by
  have hw : (0 : Int) < t.width := by exact_mod_cast width_pos_of_lt_area hi
  have := Int.emod_lt_of_pos (t.column i + dx) hw
  have := Int.emod_nonneg (t.column i + dx) hw.ne'
  omega

theorem shift_row_lt : ((t.row i + dy) % t.height).toNat < t.height := by
  have hh : (0 : Int) < t.height := by have := row_lt hi; omega
  have := Int.emod_lt_of_pos (t.row i + dy) hh
  have := Int.emod_nonneg (t.row i + dy) hh.ne'
  omega

/-- A shift stays on the torus. -/
theorem shift_lt_area : t.shift i dx dy < t.area :=
  index_lt_area (shift_column_lt hi dx) (shift_row_lt hi dy)

/-- **A shift goes no further than its offset is long.** -/
theorem distance_shift_le {d : Nat} (hx : dx.natAbs ≤ d) (hy : dy.natAbs ≤ d) :
    t.distance i (t.shift i dx dy) ≤ d := by
  have hcol := shift_column_lt hi dx
  rw [distance, shift, column_index hcol, row_index hcol]
  exact max_le
    ((roundDistance_le (column_lt (width_pos_of_lt_area hi) i) dx).trans hx)
    ((roundDistance_le (row_lt hi) dy).trans hy)

end Torus

/-! ## Windows -/

/-- **An offset of a window spans at most its radius.** -/
theorem windowOffset_natAbs_le {radius number : Nat} (h : number < windowSize radius) :
    (windowOffset radius number).1.natAbs ≤ radius ∧
      (windowOffset radius number).2.natAbs ≤ radius := by
  rw [windowOffset]
  set place := if radius * windowSide radius + radius ≤ number then number + 1 else number
    with hplace
  have hlt : place < windowSide radius * windowSide radius := by
    rw [windowSize] at h
    split at hplace <;> omega
  have hcol : place % windowSide radius < windowSide radius :=
    Nat.mod_lt _ (Nat.succ_pos _)
  have hrow : place / windowSide radius < windowSide radius := Nat.div_lt_of_lt_mul hlt
  generalize place % windowSide radius = c at hcol ⊢
  generalize place / windowSide radius = r at hrow ⊢
  simp only [windowSide] at hcol hrow
  constructor
  · change ((c : Int) - radius).natAbs ≤ radius; omega
  · change ((r : Int) - radius).natAbs ≤ radius; omega

theorem windowSize_pos {radius : Nat} (h : radius ≠ 0) : 0 < windowSize radius := by
  have : 2 ≤ windowSide radius := by rw [windowSide]; omega
  have := Nat.mul_le_mul this this
  rw [windowSize]; omega

variable {torus : Torus} {radius : Nat} {key : UInt64} {cell other : Nat}

/-- A candidate is a shift by an offset of the window. -/
theorem exists_shift_of_mem_candidates (hr : radius ≠ 0)
    (h : other ∈ candidates torus radius key cell) :
    ∃ dx dy : Int, dx.natAbs ≤ radius ∧ dy.natAbs ≤ radius ∧ other = torus.shift cell dx dy := by
  obtain ⟨attempt, -, rfl⟩ := List.mem_map.mp h
  obtain ⟨hx, hy⟩ := windowOffset_natAbs_le
    (Nat.mod_lt (mix64 (partnerWord key cell attempt)).toNat (windowSize_pos hr))
  exact ⟨_, _, hx, hy, rfl⟩

/-- **Candidates of a cell are on the torus and within the radius.** -/
theorem distance_candidate_le (hr : radius ≠ 0) (hc : cell < torus.area)
    (h : other ∈ candidates torus radius key cell) :
    other < torus.area ∧ torus.distance cell other ≤ radius := by
  obtain ⟨dx, dy, hx, hy, rfl⟩ := exists_shift_of_mem_candidates hr h
  exact ⟨Torus.shift_lt_area hc dx dy, Torus.distance_shift_le hc dx dy hx hy⟩

end TapeLife
