import TapeLife.Proofs.Pairing.Stripes
import TapeLife.Proofs.Pairing.Window

/-!
# Proofs/Pairing/Planning — what turns and plans keep true

    turn ──▸ turn ──▸ … ──▸ plan        each turn: at most one claim, the rest abandoned

`Planning.pairUp_cases` says once what a cell's turn can do: either every candidate is refused, or
the first that is not refused is claimed.  `Planning.Sound` is what every turn keeps: the locks are
those from before with the formed pairs holding theirs on top, and every pair is near.  From it come
the facts about a whole plan (`Plan.sound_make`).
-/

namespace TapeLife

/-! ## The order of turns -/

/-- Every cell has one turn. -/
theorem keyedOrder_perm (n : Nat) (key : UInt64) : (keyedOrder n key).Perm (List.range n) := by
  have h := (shuffle_perm key (Vector.range n)).toList
  rwa [Vector.toList_range] at h

theorem mem_keyedOrder {n : Nat} {key : UInt64} {i : Nat} : i ∈ keyedOrder n key ↔ i < n := by
  rw [(keyedOrder_perm n key).mem_iff, List.mem_range]

namespace Planning

/-! ## One turn -/

/-- Whether a candidate is refused: it is the cell itself, or the two cannot be claimed. -/
def Refuses (locks : Locks) (cell other : Nat) : Prop :=
  other = cell ∨ locks.isClaimable cell other = false

/-- The pairs that a cell would have formed with refused candidates. -/
def inVain (cell : Nat) (tried : List Nat) : List Pair :=
  (tried.filter fun other => other ≠ cell).map fun other => ⟨cell, other⟩

/-- Some candidates are abandoned. -/
def abandon (p : Planning) (pairs : List Pair) : Planning :=
  { p with abandoned := p.abandoned ++ pairs.toArray }

/-- A pair is claimed and formed. -/
def form (p : Planning) (pair : Pair) : Planning :=
  { p with locks := p.locks.hold pair.initiator pair.partner, formed := p.formed.push pair }

theorem pairUp_cons_of_refuses {p : Planning} {cell other : Nat} {rest : List Nat}
    (h : Refuses p.locks cell other) :
    p.pairUp cell (other :: rest) = (p.abandon (inVain cell [other])).pairUp cell rest := by
  by_cases heq : other = cell
  · simp [pairUp, heq, abandon, inVain]
  · have hc : p.locks.isClaimable cell other = false := h.resolve_left heq
    simp [pairUp, heq, hc, abandon, inVain]

theorem abandon_inVain_cons (p : Planning) (cell other : Nat) (rest : List Nat) :
    (p.abandon (inVain cell [other])).abandon (inVain cell rest)
      = p.abandon (inVain cell (other :: rest)) := by
  have h : inVain cell (other :: rest) = inVain cell [other] ++ inVain cell rest := by
    rw [← List.singleton_append]
    simp only [inVain, List.filter_append, List.map_append]
  rw [h]
  simp [abandon, Array.append_assoc]

/-- **What a cell can do in its turn**: be refused by all candidates, or claim the first one that
does not refuse it.  Candidates tried before are abandoned. -/
theorem pairUp_cases (p : Planning) (cell : Nat) (others : List Nat) :
    ((∀ other ∈ others, Refuses p.locks cell other) ∧
        p.pairUp cell others = p.abandon (inVain cell others)) ∨
      ∃ tried other rest, others = tried ++ other :: rest ∧
        (∀ o ∈ tried, Refuses p.locks cell o) ∧ p.locks.isClaimable cell other = true ∧
        p.pairUp cell others = (p.abandon (inVain cell tried)).form ⟨cell, other⟩ := by
  induction others generalizing p with
  | nil => exact .inl ⟨by simp, by simp [pairUp, abandon, inVain]⟩
  | cons other rest ih =>
    by_cases hr : Refuses p.locks cell other
    · rw [pairUp_cons_of_refuses hr]
      obtain ⟨hall, heq⟩ | ⟨tried, o, rest', rfl, htried, hc, heq⟩ :=
        ih (p.abandon (inVain cell [other]))
      · refine .inl ⟨List.forall_mem_cons.mpr ⟨hr, hall⟩, ?_⟩
        rw [heq, abandon_inVain_cons]
      · refine .inr ⟨other :: tried, o, rest', rfl, List.forall_mem_cons.mpr ⟨hr, htried⟩, hc, ?_⟩
        rw [heq, abandon_inVain_cons]
    · obtain ⟨hne, hc⟩ : ¬ other = cell ∧ p.locks.isClaimable cell other = true := by
        simpa [Refuses] using hr
      exact .inr ⟨[], other, rest, rfl, by simp, hc, by
        simp [pairUp, hne, hc, abandon, inVain, form]⟩

/-- **A cell abandons no more candidates in its turn than it has.** -/
theorem size_abandoned_turn_le (p : Planning) (limit : Nat) (partners : Nat → List Nat)
    (cell : Nat) :
    (p.turn limit partners cell).abandoned.size ≤ p.abandoned.size + (partners cell).length := by
  have hvain : ∀ tried, (inVain cell tried).length ≤ tried.length := fun tried => by
    rw [inVain, List.length_map]
    exact List.length_filter_le _ tried
  have habandon : ∀ tried, (p.abandon (inVain cell tried)).abandoned.size
      ≤ p.abandoned.size + tried.length := fun tried => by
    rw [abandon, Array.size_append, List.size_toArray]
    exact Nat.add_le_add_left (hvain tried) _
  rw [turn]
  split
  · exact Nat.le_add_right ..
  · obtain ⟨-, heq⟩ | ⟨tried, other, rest, hothers, -, -, heq⟩ :=
      p.pairUp_cases cell (partners cell)
    · rw [heq]
      exact habandon _
    · rw [heq, hothers, List.length_append]
      exact (habandon tried).trans (by omega)

theorem size_abandoned_foldl_turn_le {most : Nat} {partners : Nat → List Nat}
    (hmost : ∀ cell, (partners cell).length ≤ most) (limit : Nat) (order : List Nat)
    (p : Planning) :
    (order.foldl (turn limit partners) p).abandoned.size
      ≤ p.abandoned.size + order.length * most := by
  induction order generalizing p with
  | nil => exact Nat.le_add_right ..
  | cons cell order ih =>
    have hturn := p.size_abandoned_turn_le limit partners cell
    have hcell := hmost cell
    rw [List.foldl_cons, List.length_cons, Nat.succ_mul]
    exact (ih _).trans (by omega)

/-! ## What every turn keeps -/

variable {torus : Torus} {radius : Nat} {before : Locks}

/-- A plan in the making that may go on: its pairs hold their cells on top of the locks from before,
and are near. -/
structure Sound (torus : Torus) (radius : Nat) (before : Locks) (p : Planning) : Prop where
  holding : before.Holding p.formed.toList p.locks
  near : ∀ pair ∈ p.formed.toList, 1 ≤ torus.distance pair.initiator pair.partner ∧
    torus.distance pair.initiator pair.partner ≤ radius

theorem sound_start (torus : Torus) (radius : Nat) (before : Locks) :
    Sound torus radius before ⟨before, #[], #[]⟩ where
  holding := .start before
  near := by simp

theorem Sound.abandon {p : Planning} (h : Sound torus radius before p) (pairs : List Pair) :
    Sound torus radius before (p.abandon pairs) := ⟨h.holding, h.near⟩

theorem Sound.form {p : Planning} (h : Sound torus radius before p) {pair : Pair}
    (hc : p.locks.isClaimable pair.initiator pair.partner = true)
    (hnear : 1 ≤ torus.distance pair.initiator pair.partner ∧
      torus.distance pair.initiator pair.partner ≤ radius) :
    Sound torus radius before (p.form pair) where
  holding := by
    rw [Planning.form, Array.toList_push]
    exact (h.holding.claim hc).perm (List.perm_append_singleton _ _).symm
  near := by
    intro q hq
    rw [Planning.form, Array.toList_push, List.mem_append, List.mem_singleton] at hq
    rcases hq with hq | rfl
    exacts [h.near q hq, hnear]

/-- **A turn keeps a plan in the making sound, and forms no pair beyond the limit.** -/
theorem Sound.turn {p : Planning} (h : Sound torus radius before p) (hr : radius ≠ 0)
    {limit : Nat} (hlimit : p.formed.size ≤ limit) (key : UInt64) {cell : Nat}
    (hcell : cell < torus.area) :
    Sound torus radius before (p.turn limit (candidates torus radius key) cell) ∧
      (p.turn limit (candidates torus radius key) cell).formed.size ≤ limit := by
  rw [Planning.turn]
  split
  · exact ⟨h, hlimit⟩
  rename_i hgo
  have hroom : p.formed.size < limit := by simp at hgo; omega
  obtain ⟨-, heq⟩ | ⟨tried, other, rest, hothers, -, hc, heq⟩ :=
    p.pairUp_cases cell (candidates torus radius key cell)
  · rw [heq]
    exact ⟨h.abandon _, hlimit⟩
  · have hmem : other ∈ candidates torus radius key cell := by simp [hothers]
    obtain ⟨hlt, hle⟩ := distance_candidate_le hr hcell hmem
    have hne : cell ≠ other := (Locks.isClaimable_iff.mp hc).1
    rw [heq]
    refine ⟨(h.abandon _).form hc ⟨Torus.distance_pos hcell hlt hne, hle⟩, ?_⟩
    simpa [Planning.form, Planning.abandon] using Nat.succ_le_of_lt hroom

/-- **Turns of cells on the torus keep a plan in the making sound.** -/
theorem Sound.foldl_turn {p : Planning} (h : Sound torus radius before p) (hr : radius ≠ 0)
    {limit : Nat} (hlimit : p.formed.size ≤ limit) (key : UInt64) {order : List Nat}
    (horder : ∀ cell ∈ order, cell < torus.area) :
    Sound torus radius before (order.foldl (Planning.turn limit (candidates torus radius key)) p) ∧
      (order.foldl (Planning.turn limit (candidates torus radius key)) p).formed.size ≤ limit := by
  induction order generalizing p with
  | nil => exact ⟨h, hlimit⟩
  | cons cell order ih =>
    obtain ⟨hcell, horder⟩ := List.forall_mem_cons.mp horder
    obtain ⟨hs, hl⟩ := h.turn hr hlimit key hcell
    exact ih hs hl horder

end Planning

/-! ## Whole plans -/

namespace Plan

/-- A plan whose pairs hold their cells on top of the locks from before, are near, and are not too
many. -/
structure Sound (torus : Torus) (radius : Nat) (before : Locks) (plan : Plan) (locks : Locks) :
    Prop where
  width_eq : plan.width = torus.width
  holding : before.Holding plan.formed locks
  near : ∀ pair ∈ plan.formed, 1 ≤ torus.distance pair.initiator pair.partner ∧
    torus.distance pair.initiator pair.partner ≤ radius
  length_le : plan.formed.length ≤ pairLimit before.size

/-- **Every plan is sound.** -/
theorem sound_make {torus : Torus} {before : Locks} (hsize : before.size = torus.area)
    (radius : Nat) (key : UInt64) :
    Sound torus radius before (make torus radius key before).1
      (make torus radius key before).2 := by
  rw [make]
  split
  · exact ⟨rfl, .start before, by simp, by simp⟩
  · rename_i hgo
    obtain ⟨hr, -⟩ : radius ≠ 0 ∧ ¬ before.size < 2 := by simpa [not_or] using hgo
    have horder : ∀ cell ∈ keyedOrder before.size key, cell < torus.area := fun cell hcell => by
      rw [← hsize]; exact mem_keyedOrder.mp hcell
    obtain ⟨hs, hl⟩ := (Planning.sound_start torus radius before).foldl_turn hr
      (Nat.zero_le (pairLimit before.size)) key horder
    exact ⟨rfl, hs.holding, hs.near, by simpa using hl⟩

/-- **A plan abandons at most as many candidates as all cells together may try.** -/
theorem length_abandoned_make_le (torus : Torus) (radius : Nat) (key : UInt64) (before : Locks) :
    (make torus radius key before).1.abandoned.length ≤ attemptsPerCell * before.size := by
  rw [make]
  split
  · exact Nat.zero_le _
  · have hmost : ∀ cell, (candidates torus radius key cell).length ≤ attemptsPerCell := fun cell =>
      by simp [candidates]
    have hturns := Planning.size_abandoned_foldl_turn_le hmost (pairLimit before.size)
      (keyedOrder before.size key) ⟨before, #[], #[]⟩
    rw [(keyedOrder_perm before.size key).length_eq, List.length_range] at hturns
    simpa [Nat.mul_comm] using hturns

/-- Nobody is paired where there is nobody to pair with. -/
theorem formed_make_eq_nil {torus : Torus} {radius : Nat} {before : Locks}
    (h : radius = 0 ∨ before.size < 2) (key : UInt64) :
    (make torus radius key before).1.formed = [] := by
  rw [make, if_pos h]

end Plan

end TapeLife
