import Mathlib.Data.List.Nodup
import Mathlib.Data.List.Pairwise
import Mathlib.Data.List.Perm.Basic
import TapeLife.Pairing.Plan

/-!
# Proofs/Pairing/Holding — locks that pairs hold on top of others

    before ──claim──▸ before + {a, b} ──claim──▸ … ──release──▸ before

`Holding before pairs locks` says that `locks` are `before` with the cells of `pairs` taken on top:
no cell is in two of the pairs, and none was taken before.  A granted claim adds its pair
(`Holding.claim`), a release takes one away (`Holding.release`), so giving everything back in any
order restores what was there before (`Holding.foldl_release`).
-/

namespace TapeLife

/-! ## The cells of pairs -/

/-- The two cells of a pair. -/
def Pair.cells (pair : Pair) : List Nat := [pair.initiator, pair.partner]

theorem Pair.mem_cells {pair : Pair} {i : Nat} :
    i ∈ pair.cells ↔ i = pair.initiator ∨ i = pair.partner := by
  simp [cells]

theorem Pair.initiator_mem_cells (pair : Pair) : pair.initiator ∈ pair.cells :=
  mem_cells.mpr (.inl rfl)

theorem Pair.partner_mem_cells (pair : Pair) : pair.partner ∈ pair.cells :=
  mem_cells.mpr (.inr rfl)

/-- The cells of some pairs, those of the first one first. -/
def membersOf (pairs : List Pair) : List Nat := pairs.flatMap Pair.cells

@[simp] theorem membersOf_nil : membersOf [] = [] := rfl

@[simp] theorem membersOf_cons (pair : Pair) (pairs : List Pair) :
    membersOf (pair :: pairs) = pair.cells ++ membersOf pairs := rfl

theorem mem_membersOf {pairs : List Pair} {i : Nat} :
    i ∈ membersOf pairs ↔ ∃ pair ∈ pairs, i ∈ pair.cells := List.mem_flatMap

/-- A cell leads a pair, is the partner of one, or is in none. -/
theorem membersOf_cases (pairs : List Pair) (i : Nat) :
    (∃ pair ∈ pairs, pair.initiator = i) ∨ (∃ pair ∈ pairs, pair.partner = i) ∨
      i ∉ membersOf pairs := by
  by_cases h : i ∈ membersOf pairs
  · obtain ⟨pair, hp, hi⟩ := mem_membersOf.mp h
    obtain rfl | rfl := Pair.mem_cells.mp hi
    · exact .inl ⟨pair, hp, rfl⟩
    · exact .inr (.inl ⟨pair, hp, rfl⟩)
  · exact .inr (.inr h)

theorem perm_membersOf {pairs pairs' : List Pair} (h : pairs.Perm pairs') :
    (membersOf pairs).Perm (membersOf pairs') := h.flatMap_right _

/-- Two different pairs of a matching share no cell. -/
theorem disjoint_cells {pairs : List Pair} (h : (membersOf pairs).Nodup) :
    pairs.Pairwise fun p q => p.cells.Disjoint q.cells :=
  (List.nodup_flatMap.mp h).2

/-- A cell tells its pair. -/
theorem eq_of_mem_cells {pairs : List Pair} (h : (membersOf pairs).Nodup) {p q : Pair}
    (hp : p ∈ pairs) (hq : q ∈ pairs) {i : Nat} (hip : i ∈ p.cells) (hiq : i ∈ q.cells) :
    p = q := by
  have : Std.Symm fun p q : Pair => p.cells.Disjoint q.cells := ⟨fun _ _ h _ hq hp => h hp hq⟩
  by_contra hne
  exact (disjoint_cells h).forall hp hq hne hip hiq

/-- Nobody is paired with itself. -/
theorem partner_ne_initiator {pairs : List Pair} (h : (membersOf pairs).Nodup) {pair : Pair}
    (hp : pair ∈ pairs) : pair.partner ≠ pair.initiator := by
  have hcells : pair.cells.Nodup := (List.nodup_flatMap.mp h).1 pair hp
  intro heq
  rw [Pair.cells, heq] at hcells
  exact (List.nodup_cons.mp hcells).1 (List.mem_singleton_self _)

theorem nodup_of_nodup_membersOf {pairs : List Pair} (h : (membersOf pairs).Nodup) :
    pairs.Nodup := by
  refine (disjoint_cells h).imp fun {p q} hpq heq => ?_
  exact hpq p.initiator_mem_cells (heq ▸ p.initiator_mem_cells)

/-! ## What claims and releases do to each lock -/

namespace Locks

theorem isFree_iff {locks : Locks} {i : Nat} : locks.isFree i = true ↔ locks[i]? = some false := by
  simp [isFree]

theorem isClaimable_iff {locks : Locks} {a b : Nat} :
    locks.isClaimable a b = true ↔ a ≠ b ∧ locks.isFree a = true ∧ locks.isFree b = true := by
  simp [isClaimable, and_assoc]

theorem getElem?_hold (locks : Locks) (a b i : Nat) :
    (locks.hold a b)[i]? = locks[i]?.map (· || decide (i ∈ [a, b])) := by
  by_cases hi : i < locks.size
  · simp only [hold, Array.getElem?_setIfInBounds, Array.size_setIfInBounds]
    grind
  · simp [hold, Array.getElem?_eq_none (Nat.le_of_not_lt hi)]
    grind

theorem getElem?_release (locks : Locks) (pair : Pair) (i : Nat) :
    (locks.release pair)[i]? = locks[i]?.map (· && !decide (i ∈ pair.cells)) := by
  by_cases hi : i < locks.size
  · simp only [release, Pair.cells, Array.getElem?_setIfInBounds, Array.size_setIfInBounds]
    grind
  · simp [release, Array.getElem?_eq_none (Nat.le_of_not_lt hi)]
    grind

/-! ## Pairs that hold their cells -/

/-- `locks` are `before` with the cells of `pairs` taken on top. -/
structure Holding (before : Locks) (pairs : List Pair) (locks : Locks) : Prop where
  /-- No cell is in two pairs, or twice in one. -/
  nodup : (membersOf pairs).Nodup
  /-- Nobody holds a cell that was taken before. -/
  free : ∀ i ∈ membersOf pairs, before.isFree i = true
  getElem? : ∀ i, locks[i]? = before[i]?.map (· || decide (i ∈ membersOf pairs))

namespace Holding

variable {before locks : Locks} {pairs : List Pair}

/-- Nobody holds anything. -/
theorem start (before : Locks) : Holding before [] before where
  nodup := List.nodup_nil
  free := by simp
  getElem? i := by simp

theorem perm {pairs' : List Pair} (h : Holding before pairs locks) (hp : pairs.Perm pairs') :
    Holding before pairs' locks where
  nodup := (perm_membersOf hp).nodup_iff.mp h.nodup
  free i hi := h.free i ((perm_membersOf hp).mem_iff.mpr hi)
  getElem? i := by rw [h.getElem? i]; simp only [(perm_membersOf hp).mem_iff]

/-- A cell is free exactly if it was free before and nobody holds it. -/
theorem isFree_iff (h : Holding before pairs locks) {i : Nat} :
    locks.isFree i = true ↔ before.isFree i = true ∧ i ∉ membersOf pairs := by
  rw [Locks.isFree_iff, Locks.isFree_iff, h.getElem? i]
  cases before[i]? <;> simp

theorem lt_size (h : Holding before pairs locks) {i : Nat} (hi : i ∈ membersOf pairs) :
    i < before.size := by
  have := Locks.isFree_iff.mp (h.free i hi)
  exact (Array.getElem?_eq_some_iff.mp this).1

/-- **A granted claim holds its pair too.** -/
theorem claim (h : Holding before pairs locks) {a b : Nat} (hc : locks.isClaimable a b = true) :
    Holding before (⟨a, b⟩ :: pairs) (locks.hold a b) := by
  obtain ⟨hab, ha, hb⟩ := isClaimable_iff.mp hc
  rw [h.isFree_iff] at ha hb
  refine ⟨?_, ?_, fun i => ?_⟩
  · simp only [membersOf_cons, Pair.cells, List.cons_append, List.nil_append, List.nodup_cons,
      List.mem_cons, not_or]
    exact ⟨⟨hab, ha.2⟩, hb.2, h.nodup⟩
  · simp only [membersOf_cons, Pair.cells, List.cons_append, List.nil_append, List.mem_cons]
    rintro i (rfl | rfl | hi)
    exacts [ha.1, hb.1, h.free i hi]
  · rw [getElem?_hold, h.getElem? i, Option.map_map]
    congr 1
    funext taken
    simp only [Function.comp_apply, membersOf_cons, Pair.cells, List.mem_append, Bool.decide_or,
      Bool.or_assoc, Bool.or_comm (decide (i ∈ membersOf pairs))]

/-- The pair that stands first is given back. -/
theorem release_head {pair : Pair} (h : Holding before (pair :: pairs) locks) :
    Holding before pairs (locks.release pair) := by
  have hnd := h.nodup
  rw [membersOf_cons, List.nodup_append'] at hnd
  refine ⟨hnd.2.1, fun i hi => h.free i (List.mem_append_right _ hi), fun i => ?_⟩
  rw [getElem?_release, h.getElem? i, Option.map_map]
  -- A cell of the pair was free before and is in no other pair, so taking its lock off is right.
  by_cases hi : i ∈ pair.cells
  · have hfree := Locks.isFree_iff.mp (h.free i (List.mem_append_left _ hi))
    have hother : i ∉ membersOf pairs := fun h => hnd.2.2 hi h
    simp [hfree, hi, hother]
  · simp only [membersOf_cons, List.mem_append, hi, false_or, decide_false, Bool.not_false]
    congr 1
    funext taken
    simp

/-- **A release gives back one of the pairs.** -/
theorem release (h : Holding before pairs locks) {pair : Pair} (hp : pair ∈ pairs) :
    Holding before (pairs.erase pair) (locks.release pair) :=
  (h.perm (List.perm_cons_erase hp)).release_head

/-- **Giving everything back, in any order, restores what was taken before.** -/
theorem foldl_release {order : List Pair} (h : Holding before pairs locks)
    (ho : order.Perm pairs) : order.foldl Locks.release locks = before := by
  replace h := h.perm ho.symm
  clear ho
  induction order generalizing locks with
  | nil => exact Array.ext_getElem? fun i => by simpa using h.getElem? i
  | cons pair order ih => exact ih h.release_head

end Holding

end Locks

end TapeLife
