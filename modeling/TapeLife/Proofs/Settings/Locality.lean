import TapeLife.Proofs.Settings.Check
import TapeLife.Proofs.Torus

/-!
# Proofs/Settings/Locality — what the warning of a spanning window says

                    2 · dist + 1
    ───────┼─────────────┼─────────────▸        warned from the shorter side on,
        shorter        longer                   all cells near from the longer side on

A circle lies within a radius of each of its places exactly if the radius, taken to both sides,
reaches round it (`Torus.roundDistance_le_iff_spans`).  So all cells of a grid are within a radius of
one another if the window reaches round the longer side (`Torus.distance_le_iff_spans`), and those
of a single row or of a single column if it reaches round that side.

The check warns as soon as the window reaches round the shorter side (`mem_warnings_iff`).  Then the
cells across that side are all near, and the others may be far away: on a grid of unequal sides the
warning can come too early (`warned_iff_spans_shorter`).
-/

namespace TapeLife

namespace Torus

variable {t : Torus} {d : Nat}

/-! ## Radius and diameter -/

/-- **A radius covers a circle** from everywhere if it reaches round it. -/
theorem roundDistance_le_iff_spans {size : Nat} (hsize : 0 < size) :
    (∀ a b, a < size → b < size → roundDistance size a b ≤ d) ↔ size ≤ 2 * d + 1 := by
  constructor
  · intro h
    -- half a turn is the longest way
    have hhalf := h 0 (size / 2) hsize (by omega)
    simp only [roundDistance] at hhalf
    omega
  · intro h a b ha hb
    simp only [roundDistance]
    omega

variable (hw : 0 < t.width) (hh : 0 < t.height)
include hw hh

/-- The cells of one row are near if the width is covered. -/
theorem distance_row_le_iff_spans :
    (∀ i j, i < t.area → j < t.area → t.row i = t.row j → t.distance i j ≤ d) ↔
      t.width ≤ 2 * d + 1 := by
  rw [← roundDistance_le_iff_spans hw]
  constructor
  · intro h a b ha hb
    have hnear := h (t.index a 0) (t.index b 0) (index_lt_area ha hh) (index_lt_area hb hh)
      (by rw [row_index ha, row_index hb])
    rw [distance, column_index ha, column_index hb] at hnear
    exact (le_max_left _ _).trans hnear
  · intro h i j _ _ hrow
    rw [distance, hrow, roundDistance_self, Nat.max_zero]
    exact h _ _ (column_lt hw i) (column_lt hw j)

/-- The cells of one column are near if the height is covered. -/
theorem distance_column_le_iff_spans :
    (∀ i j, i < t.area → j < t.area → t.column i = t.column j → t.distance i j ≤ d) ↔
      t.height ≤ 2 * d + 1 := by
  rw [← roundDistance_le_iff_spans hh]
  constructor
  · intro h a b ha hb
    have hnear := h (t.index 0 a) (t.index 0 b) (index_lt_area hw ha) (index_lt_area hw hb)
      (by rw [column_index hw, column_index hw])
    rw [distance, row_index hw, row_index hw] at hnear
    exact (le_max_right _ _).trans hnear
  · intro h i j hi hj hcolumn
    rw [distance, hcolumn, roundDistance_self, Nat.zero_max]
    exact h _ _ (row_lt hi) (row_lt hj)

/-- **All cells are near one another** if the longer side is covered. -/
theorem distance_le_iff_spans :
    (∀ i j, i < t.area → j < t.area → t.distance i j ≤ d) ↔
      max t.width t.height ≤ 2 * d + 1 := by
  rw [Nat.max_le]
  constructor
  · intro h
    exact ⟨(distance_row_le_iff_spans hw hh).mp fun i j hi hj _ => h i j hi hj,
      (distance_column_le_iff_spans hw hh).mp fun i j hi hj _ => h i j hi hj⟩
  · rintro ⟨hwidth, hheight⟩ i j hi hj
    exact Nat.max_le.mpr
      ⟨(roundDistance_le_iff_spans hw).mpr hwidth _ _ (column_lt hw i) (column_lt hw j),
        (roundDistance_le_iff_spans hh).mpr hheight _ _ (row_lt hi) (row_lt hj)⟩

end Torus

namespace Settings

variable {s : Settings} {warnings : List Warning}

/-! ## The warning -/

/-- The doubt about the window of some parameters. -/
def spanWarning (p : Params) : Warning := .windowSpansGrid p.maxDist p.width p.height

theorem notMem_when {doubtful : Bool} {warning other : Warning} (h : other ≠ warning) :
    other ∉ Warning.when doubtful warning := by
  rw [Warning.when]
  split
  · exact fun hmem => h (List.mem_singleton.mp hmem)
  · exact List.not_mem_nil

theorem spanWarning_notMem_checkpoint (h : s.checkCheckpoint = .ok warnings) (p : Params) :
    spanWarning p ∉ warnings := by
  rw [checkCheckpoint] at h
  split at h
  · exact Except.ok.inj h ▸ List.not_mem_nil
  · split at h
    · cases h
    · split at h
      · exact Except.ok.inj h ▸ by simp [spanWarning]
      · exact Except.ok.inj h ▸ notMem_when (by simp [spanWarning])

theorem spanWarning_notMem_metrics (h : s.checkMetrics = .ok warnings) (p : Params) :
    spanWarning p ∉ warnings := by
  rw [checkMetrics] at h
  split at h
  · exact Except.ok.inj h ▸ List.not_mem_nil
  · split at h
    · cases h
    · exact Except.ok.inj h ▸ notMem_when (by simp [spanWarning])

/-- The doubts of a check that succeeds, section by section. -/
theorem exists_of_check_eq_ok (h : s.check = .ok warnings) :
    ∃ checkpoints metrics, s.checkCheckpoint = .ok checkpoints ∧ s.checkMetrics = .ok metrics ∧
      warnings = s.worldWarnings ++ checkpoints ++ metrics := by
  obtain ⟨hvalid, hspeed, hseeds, hpath, hinterval⟩ := check_succeeds_iff.mp ⟨warnings, h⟩
  obtain ⟨checkpoints, hcheckpoints⟩ := checkCheckpoint_succeeds_iff.mpr hpath
  obtain ⟨metrics, hmetrics⟩ := checkMetrics_succeeds_iff.mpr hinterval
  refine ⟨checkpoints, metrics, hcheckpoints, hmetrics, ?_⟩
  rw [check, (Params.fault?_eq_none_iff _).mpr hvalid] at h
  simp only [if_neg hspeed, seedFault?_eq_none_iff.mpr hseeds, hcheckpoints, hmetrics] at h
  exact (Except.ok.inj h).symm

/-- **The check warns** when a window that is open reaches round the shorter side. -/
theorem mem_warnings_iff (h : s.check = .ok warnings) :
    spanWarning s.world ∈ warnings ↔ s.world.maxDist ≠ 0 ∧
      min s.world.width.toNat s.world.height.toNat ≤ 2 * s.world.maxDist.toNat + 1 := by
  obtain ⟨checkpoints, metrics, hcheckpoints, hmetrics, rfl⟩ := exists_of_check_eq_ok h
  simp only [List.mem_append, spanWarning_notMem_checkpoint hcheckpoints,
    spanWarning_notMem_metrics hmetrics, worldWarnings, or_false]
  rw [or_iff_right (not_or.mpr ⟨notMem_when (by simp [spanWarning]),
    notMem_when (by simp [spanWarning])⟩), Warning.when, windowSpansGrid]
  by_cases hdist : s.world.maxDist = 0 <;> simp [hdist, spanWarning]

/-- **The warning of a spanning window speaks of the shorter side.**  Settings that pass the check
with a window that is open are warned exactly if all cells of every row, or all cells of every
column, are near one another.  So there is a warning whenever all cells of the grid are near one
another; and that they are not though there is a warning happens exactly on grids of unequal sides,
where the window reaches round the shorter side and not round the longer one. -/
theorem warned_iff_spans_shorter {s : Settings} {warnings : List Warning}
    (hcheck : s.check = .ok warnings) (hopen : 0 < s.world.maxDist) :
    let t := s.world.torus
    let d := s.world.maxDist.toNat
    let warned := Warning.windowSpansGrid s.world.maxDist s.world.width s.world.height ∈ warnings
    let allNear := ∀ i j, i < t.area → j < t.area → t.distance i j ≤ d
    (warned ↔ (∀ i j, i < t.area → j < t.area → t.row i = t.row j → t.distance i j ≤ d) ∨
      ∀ i j, i < t.area → j < t.area → t.column i = t.column j → t.distance i j ≤ d) ∧
    (allNear → warned) ∧
    ((warned ↔ allNear) ↔
      ¬ (min t.width t.height ≤ 2 * d + 1 ∧ 2 * d + 1 < max t.width t.height)) := by
  intro t d warned allNear
  obtain ⟨hvalid, -⟩ := check_succeeds_iff.mp ⟨warnings, hcheck⟩
  have hw : 0 < t.width := hvalid.width_pos
  have hh : 0 < t.height := hvalid.height_pos
  have hdist : s.world.maxDist ≠ 0 := fun h => absurd (h ▸ hopen) (by decide)
  have hwarned : warned ↔ min t.width t.height ≤ 2 * d + 1 :=
    (mem_warnings_iff hcheck).trans (and_iff_right hdist)
  have hnear : allNear ↔ max t.width t.height ≤ 2 * d + 1 := Torus.distance_le_iff_spans hw hh
  rw [Torus.distance_row_le_iff_spans hw hh, Torus.distance_column_le_iff_spans hw hh, hwarned,
    hnear]
  refine ⟨?_, ?_, ?_⟩ <;> omega

/-- A long and narrow grid. -/
def narrow : Settings :=
  { standard with world := { Params.standard with maxDist := 1, width := 100, height := 3 } }

/-- A window of three columns and three rows spans the height of the narrow grid, and there is a
warning; the cells half a turn apart in a row are far from one another. -/
theorem warned_not_near_narrow :
    narrow.check = .ok [.windowSpansGrid 1 100 3] ∧
      ¬ ∀ i j, i < narrow.world.torus.area → j < narrow.world.torus.area →
        narrow.world.torus.distance i j ≤ narrow.world.maxDist.toNat := by
  refine ⟨by decide +kernel, fun h => ?_⟩
  exact absurd (h 0 50 (by decide) (by decide)) (by decide)

/-- The three statements for the narrow grid: its columns are near, and so it is warned, too
early. -/
theorem warned_iff_spans_shorter_narrow :
    let t := narrow.world.torus
    (narrow.check = .ok [.windowSpansGrid 1 100 3] ∧ 0 < narrow.world.maxDist) ∧
      (∀ i j, i < t.area → j < t.area → t.column i = t.column j → t.distance i j ≤ 1) ∧
      ¬ (Warning.windowSpansGrid 1 100 3 ∈ [Warning.windowSpansGrid 1 100 3] ↔
        ∀ i j, i < t.area → j < t.area → t.distance i j ≤ 1) := by
  intro t
  have hcheck : narrow.check = .ok [.windowSpansGrid 1 100 3] := by decide +kernel
  obtain ⟨hwarned, -, htrue⟩ := warned_iff_spans_shorter hcheck (by decide)
  have hcolumns := (hwarned.mp List.mem_cons_self).resolve_left fun hrows =>
    absurd (hrows 0 50 (by decide) (by decide) (by decide)) (by decide)
  exact ⟨⟨hcheck, by decide⟩, hcolumns, fun h => htrue.mp h (by decide)⟩

end Settings

end TapeLife
