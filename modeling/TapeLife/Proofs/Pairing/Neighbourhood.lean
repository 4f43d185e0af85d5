import Mathlib.Data.Set.Function
import TapeLife.Proofs.Torus

/-!
# Proofs/Pairing/Neighbourhood — the window of a cell is the disc around it

    number ──windowOffset──▸ offset ──shift──▸ cell        distance ≤ radius
           ◂──windowNumber──

Numbering the places of a window row by row with the centre left out reaches every offset but the
zero one, each from one number: `windowNumber` reads the number back (`bijOn_windowOffset`).  A
distance on a circle can be walked, in one direction or the other (`Torus.exists_walk`), so the
cells that the offsets of a window lead to are the other cells within its radius
(`Torus.distance_le_iff_exists_offset`).  With the laws of a metric this makes choosing partners and
measuring distances speak of the same neighbours (`neighbourhood_eq_window`).
-/

namespace TapeLife

/-! ## Numbers and offsets -/

/-- The offsets that span at most a radius, the zero one left out. -/
def windowOffsets (radius : Nat) : Set (Int × Int) :=
  {offset | offset.1.natAbs ≤ radius ∧ offset.2.natAbs ≤ radius ∧ offset ≠ (0, 0)}

/-- The places of a window, row by row: as many columns as rows, the centre among them. -/
def windowSquare (radius : Nat) : Torus := ⟨windowSide radius, windowSide radius⟩

/-- The number of an offset: its place in the window, with the centre skipped. -/
def windowNumber (radius : Nat) (offset : Int × Int) : Nat :=
  let centre := (windowSquare radius).index radius radius
  let place := (windowSquare radius).index (offset.1 + radius).toNat (offset.2 + radius).toNat
  if centre < place then place - 1 else place

variable {radius number : Nat} {offset : Int × Int}

theorem windowOffset_eq_of_place (place : Nat)
    (h : (if (windowSquare radius).index radius radius ≤ number then number + 1 else number)
      = place) :
    windowOffset radius number = ((windowSquare radius).column place - (radius : Int),
      (windowSquare radius).row place - (radius : Int)) := by
  subst h
  rfl

/-- The place of an offset is in the window, and it is the centre for no offset but the zero one. -/
theorem place_of_mem_windowOffsets (h : offset ∈ windowOffsets radius) :
    (offset.1 + radius).toNat < windowSide radius ∧ (offset.2 + radius).toNat < windowSide radius ∧
      (windowSquare radius).index (offset.1 + radius).toNat (offset.2 + radius).toNat
        ≠ (windowSquare radius).index radius radius := by
  obtain ⟨hx, hy, hne⟩ := h
  have hcolumn : (offset.1 + radius).toNat < windowSide radius := by rw [windowSide]; omega
  have hrow : (offset.2 + radius).toNat < windowSide radius := by rw [windowSide]; omega
  have hcentre : radius < windowSide radius := by rw [windowSide]; omega
  refine ⟨hcolumn, hrow, fun heq => hne ?_⟩
  have hx0 := congrArg (windowSquare radius).column heq
  have hy0 := congrArg (windowSquare radius).row heq
  rw [Torus.column_index hcolumn, Torus.column_index hcentre] at hx0
  rw [Torus.row_index hcolumn, Torus.row_index hcentre] at hy0
  exact Prod.ext (by change offset.1 = 0; omega) (by change offset.2 = 0; omega)

/-- **The number of an offset has that offset.** -/
theorem windowOffset_windowNumber (h : offset ∈ windowOffsets radius) :
    windowOffset radius (windowNumber radius offset) = offset := by
  obtain ⟨hcolumn, hrow, hcentre⟩ := place_of_mem_windowOffsets h
  obtain ⟨hx, hy, -⟩ := h
  rw [windowOffset_eq_of_place
    ((windowSquare radius).index (offset.1 + radius).toNat (offset.2 + radius).toNat),
    Torus.column_index hcolumn, Torus.row_index hcolumn]
  · exact Prod.ext (by simp only; omega) (by simp only; omega)
  · -- skipping the centre and closing the gap cancel out on every other place
    rw [windowNumber]
    split_ifs <;> omega

/-- **The offset of a number has that number.** -/
theorem windowNumber_windowOffset (radius number : Nat) :
    windowNumber radius (windowOffset radius number) = number := by
  generalize hplace : (if (windowSquare radius).index radius radius ≤ number then number + 1
    else number) = place
  rw [windowOffset_eq_of_place place hplace, windowNumber]
  simp only [Int.sub_add_cancel, Int.toNat_natCast, Torus.index_column_row]
  split_ifs at hplace ⊢ <;> omega

theorem windowNumber_lt (h : offset ∈ windowOffsets radius) :
    windowNumber radius offset < windowSize radius := by
  obtain ⟨hcolumn, hrow, hne⟩ := place_of_mem_windowOffsets h
  have hplace : _ < (windowSquare radius).area := Torus.index_lt_area hcolumn hrow
  have hside : radius < windowSide radius := by rw [windowSide]; omega
  have hcentre : _ < (windowSquare radius).area := Torus.index_lt_area hside hside
  have harea : (windowSquare radius).area = windowSize radius + 1 := by
    have hpos := Nat.mul_pos (Nat.zero_lt_of_lt hside) (Nat.zero_lt_of_lt hside)
    exact (Nat.sub_add_cancel hpos).symm
  rw [windowNumber]
  split_ifs <;> omega

theorem windowOffset_mem (h : number < windowSize radius) :
    windowOffset radius number ∈ windowOffsets radius := by
  obtain ⟨hx, hy⟩ := windowOffset_natAbs_le h
  refine ⟨hx, hy, fun hzero => ?_⟩
  -- The zero offset stands at the centre, and the numbers skip that place.
  generalize hplace : (if (windowSquare radius).index radius radius ≤ number then number + 1
    else number) = place at *
  rw [windowOffset_eq_of_place place hplace, Prod.mk.injEq] at hzero
  have hcolumn : (windowSquare radius).column place = radius := by omega
  have hrow : (windowSquare radius).row place = radius := by omega
  have hcentre := Torus.index_column_row (windowSquare radius) place
  rw [hcolumn, hrow] at hcentre
  split_ifs at hplace <;> omega

/-- **The numbers of a window reach every offset within the radius but the zero one, each once.** -/
theorem bijOn_windowOffset (radius : Nat) :
    Set.BijOn (windowOffset radius) {number | number < windowSize radius} (windowOffsets radius) :=
  Set.InvOn.bijOn
    ⟨fun number _ => windowNumber_windowOffset radius number,
      fun _ h => windowOffset_windowNumber h⟩
    (fun _ h => windowOffset_mem h) fun _ h => windowNumber_lt h

/-! ## Distances and walks -/

namespace Torus

variable {t : Torus} {i j d : Nat}

/-- Only a cell itself is no distance away from it. -/
theorem distance_eq_zero_iff (hi : i < t.area) (hj : j < t.area) : t.distance i j = 0 ↔ i = j := by
  constructor
  · intro h
    by_contra hne
    exact Nat.ne_of_gt (distance_pos hi hj hne) h
  · rintro rfl
    exact distance_self t i

/-- **A distance on a circle can be walked**, in one direction or the other. -/
theorem exists_walk {size a b : Nat} (ha : a < size) (hb : b < size) :
    ∃ step : Int, step.natAbs = roundDistance size a b ∧ ((a + step) % size).toNat = b := by
  have hend : ∀ step turns : Int, a + step = b + size * turns →
      ((a + step) % size).toNat = b := fun step turns h => by
    rw [h, Int.add_mul_emod_self_left, Int.emod_eq_of_lt (by omega) (by omega), Int.toNat_natCast]
  -- The straight way, or the way round the back that ends a turn before or after `b`.
  obtain hway | hway | hway : (b - a : Int).natAbs = roundDistance size a b ∨
      (b - size - a : Int).natAbs = roundDistance size a b ∨
      (b + size - a : Int).natAbs = roundDistance size a b := by
    simp only [roundDistance]; omega
  · exact ⟨_, hway, hend _ 0 (by omega)⟩
  · exact ⟨_, hway, hend _ (-1) (by omega)⟩
  · exact ⟨_, hway, hend _ 1 (by omega)⟩

/-- **The cells that the offsets of a window lead to are the other cells within its radius.** -/
theorem distance_le_iff_exists_offset (hi : i < t.area) (hj : j < t.area) (hne : i ≠ j) :
    t.distance i j ≤ d ↔ ∃ offset ∈ windowOffsets d, t.shift i offset.1 offset.2 = j := by
  constructor
  · intro h
    have hw := width_pos_of_lt_area hi
    obtain ⟨dx, hdx, hcolumn⟩ := exists_walk (column_lt hw i) (column_lt hw j)
    obtain ⟨dy, hdy, hrow⟩ := exists_walk (row_lt hi) (row_lt hj)
    have hdistance : t.distance i j = max dx.natAbs dy.natAbs := by rw [distance, hdx, hdy]
    have hshift : t.shift i dx dy = j := by rw [shift, hcolumn, hrow, index_column_row]
    refine ⟨(dx, dy), ⟨by omega, by omega, fun hzero => hne ?_⟩, hshift⟩
    obtain ⟨rfl, rfl⟩ := Prod.mk.inj hzero
    exact (distance_eq_zero_iff hi hj).mp hdistance
  · rintro ⟨offset, ⟨hx, hy, -⟩, rfl⟩
    exact distance_shift_le hi _ _ hx hy

end Torus

/-! ## The neighbourhood -/

/-- **Windows and distances describe the same neighbourhoods.**  For every radius the numbers of the
window reach every offset within it but the zero one, each once; on every torus a shift by one of
these offsets leads from a cell to another exactly if their distance is within the radius; and the
distance is a metric on the cells. -/
theorem neighbourhood_eq_window (t : Torus) :
    (∀ d : Nat, Set.BijOn (windowOffset d) {k | k < (2 * d + 1) ^ 2 - 1}
      {o | |o.1| ≤ d ∧ |o.2| ≤ d ∧ o ≠ (0, 0)}) ∧
    (∀ (d : Nat) (i j : Fin t.area), i ≠ j →
      (t.distance i j ≤ d ↔ ∃ k < (2 * d + 1) ^ 2 - 1,
        t.shift i (windowOffset d k).1 (windowOffset d k).2 = j)) ∧
    (∀ i j : Fin t.area, t.distance i j = 0 ↔ i = j) ∧
    (∀ i j : Fin t.area, t.distance i j = t.distance j i) ∧
    ∀ i j k : Fin t.area, t.distance i k ≤ t.distance i j + t.distance j k := by
  have hsize : ∀ d, (2 * d + 1) ^ 2 - 1 = windowSize d := fun d => by
    rw [windowSize, windowSide, Nat.pow_two]
  have hoffsets : ∀ d : Nat, {o : Int × Int | |o.1| ≤ d ∧ |o.2| ≤ d ∧ o ≠ (0, 0)}
      = windowOffsets d := fun d => by
    simp only [windowOffsets, Int.abs_eq_natAbs, Nat.cast_le]
  refine ⟨fun d => ?_, fun d i j hne => ?_, fun i j => ?_, fun i j => Torus.distance_comm t i j,
    fun i j k => Torus.distance_triangle i.2 j.2 k.2⟩
  · rw [hsize, hoffsets]
    exact bijOn_windowOffset d
  · rw [hsize, Torus.distance_le_iff_exists_offset i.2 j.2 (Fin.val_ne_of_ne hne),
      ← (bijOn_windowOffset d).image_eq, Set.exists_mem_image]
    rfl
  · rw [Torus.distance_eq_zero_iff i.2 j.2, Fin.val_inj]

/-- On a ring of three cells, which its own window covers more than once, the last cell is next to
the first one. -/
theorem neighbourhood_eq_window_ring :
    (0 : Nat) ≠ 2 ∧ (Torus.mk 3 1).distance 0 2 ≤ 1 ∧
      ∃ k < 8, (Torus.mk 3 1).shift 0 (windowOffset 1 k).1 (windowOffset 1 k).2 = 2 :=
  ⟨by decide, by decide,
    ((neighbourhood_eq_window ⟨3, 1⟩).2.1 1 ⟨0, by decide⟩ ⟨2, by decide⟩ (by decide)).mp
      (by decide)⟩

end TapeLife
