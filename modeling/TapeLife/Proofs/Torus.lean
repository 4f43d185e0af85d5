import TapeLife.Proofs.Pairing.Window

/-!
# Proofs/Torus — distance on the torus is a metric

The short way round a circle is as long in either direction, and never longer than a way with a stop
in between (`roundDistance_triangle`).  Columns and rows go round circles of their own, so both hold
of cells as well (`distance_comm`, `distance_triangle`).
-/

namespace TapeLife

namespace Torus

/-! ## Circles -/

theorem roundDistance_self (size a : Nat) : roundDistance size a a = 0 := by
  simp [roundDistance]

theorem roundDistance_comm (size a b : Nat) : roundDistance size a b = roundDistance size b a := by
  rw [roundDistance, roundDistance, Nat.max_comm, Nat.min_comm a b]

/-- Places are near if they are, or if one of them is after a turn of the other. -/
theorem roundDistance_le_iff (a : Nat) {size b r : Nat} (hb : b < size) :
    roundDistance size a b ≤ r ↔
      a ≤ b + r ∧ b ≤ a + r ∨ a + size ≤ b + r ∨ b + size ≤ a + r := by
  simp only [roundDistance]
  omega

/-- **A stop on the way makes no way shorter.** -/
theorem roundDistance_triangle {size a b c : Nat} (ha : a < size) (hb : b < size) (hc : c < size) :
    roundDistance size a c ≤ roundDistance size a b + roundDistance size b c := by
  have hab := (roundDistance_le_iff a hb).mp (Nat.le_refl _)
  have hbc := (roundDistance_le_iff b hc).mp (Nat.le_refl _)
  rw [roundDistance_le_iff a hc]
  omega

/-! ## Cells -/

variable {t : Torus}

@[simp] theorem distance_self (t : Torus) (a : Nat) : t.distance a a = 0 := by
  rw [distance, roundDistance_self, roundDistance_self, Nat.max_self]

theorem distance_comm (t : Torus) (a b : Nat) : t.distance a b = t.distance b a := by
  rw [distance, distance, roundDistance_comm, roundDistance_comm t.height]

/-- **Distance on the torus obeys the triangle inequality**, around the edges as well. -/
theorem distance_triangle {a b c : Nat} (ha : a < t.area) (hb : b < t.area) (hc : c < t.area) :
    t.distance a c ≤ t.distance a b + t.distance b c := by
  have hw := width_pos_of_lt_area ha
  have hcolumns := roundDistance_triangle (column_lt hw a) (column_lt hw b) (column_lt hw c)
  have hrows := roundDistance_triangle (row_lt ha) (row_lt hb) (row_lt hc)
  simp only [distance]
  omega

end Torus

end TapeLife
