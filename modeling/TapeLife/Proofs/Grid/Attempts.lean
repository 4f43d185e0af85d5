import TapeLife.Proofs.Grid.Matching
import TapeLife.Proofs.Pairing.Attempts
import TapeLife.Proofs.Pairing.Refusals

/-!
# Proofs/Grid/Attempts — planning misses nobody, and what it drops stays dropped

    attempts ──granted──▸ pairs          free cell, room for more pairs:
             ──dropped──▸ abandoned      every candidate is the cell itself or locked

Read on a soup: the locks that planning leaves are those of the cells (`isFree_make_iff`), and a
cell that is not free is locked (`locked_of_not_free`).  So a plan with room for more pairs leaves
no cell free whose candidates are not all locked, it drops as many candidates as its history
refuses, and none of them ever becomes a pair (`planning_misses_nobody`).
-/

namespace TapeLife

namespace Grid

variable {g : Grid}

/-- After planning a cell is free exactly if it is there and not locked. -/
theorem isFree_make_iff (hg : g.WellFormed) (key : UInt64) (i : Nat) :
    (Plan.make g.torus g.params.maxDist.toNat key g.locks).2.isFree i = true ↔
      (g.plan key).2[i]?.map (·.locked) = some false := by
  rw [Locks.isFree_iff, ← locks_claimed hg, Array.getElem?_map]

/-- A cell that is there is free or locked. -/
theorem locked_of_not_free (hg : g.WellFormed) (key : UInt64) {i : Nat} (hi : i < g.cells.size)
    (h : (Plan.make g.torus g.params.maxDist.toNat key g.locks).2.isFree i = false) :
    (g.plan key).2[i]?.map (·.locked) = some true := by
  rw [← size_claimed (g := g) key] at hi
  rw [← Bool.not_eq_true, isFree_make_iff hg, Array.getElem?_eq_getElem hi] at h
  rw [Array.getElem?_eq_getElem hi]
  simpa using h

/-- **Planning misses nobody, and what it drops stays dropped.**  If a soup has room for more pairs
than its plan has, every candidate of a cell that stays unlocked is the cell itself or locked.  The
candidates that are counted as dropped are the claims on others that were refused, and the two cells
of such a claim are no pair of the plan, in either order. -/
theorem planning_misses_nobody (hg : g.WellFormed) (hdist : 1 ≤ g.params.maxDist.toNat)
    (hsize : 2 ≤ g.cells.size) (key : UInt64) :
    let plan := (g.plan key).1
    let locked := fun i : Nat => (g.plan key).2[i]?.map (·.locked)
    (plan.pairs.length < max 1 (g.cells.size / 4) →
      ∀ i, locked i = some false → ∀ attempt < attemptsPerCell,
        let j := candidate g.torus g.params.maxDist.toNat key i attempt
        j = i ∨ locked j = some true) ∧
    (plan.abandoned = ((g.attempts key).filter (·.isDrop)).map (·.pair) ∧
      plan.abandoned.length = (g.attempts key).countP (·.isDrop)) ∧
    ∀ pair ∈ plan.abandoned,
      pair ∉ plan.pairs ∧ ⟨pair.partner, pair.initiator⟩ ∉ plan.pairs := by
  have hperm := (g.plan key).1.perm_pairs
  have hradius : g.params.maxDist.toNat ≠ 0 := Nat.ne_of_gt hdist
  refine ⟨fun hroom i hi attempt hattempt => ?_, ?_, fun pair hpair => ⟨fun hp => ?_, fun hp => ?_⟩⟩
  · have hcell : i < g.cells.size := by
      obtain ⟨cell, hget, -⟩ := Option.map_eq_some_iff.mp hi
      exact size_claimed (g := g) key ▸ (Array.getElem?_eq_some_iff.mp hget).1
    have hother : candidate g.torus g.params.maxDist.toNat key i attempt
        ∈ candidates g.torus g.params.maxDist.toNat key i :=
      List.mem_map.mpr ⟨attempt, List.mem_range.mpr hattempt, rfl⟩
    have hlt := (distance_candidate_le hradius (hg.size_eq_area ▸ hcell) hother).1
    refine (Plan.taken_of_free_make hradius (by rwa [size_locks]) ?_ (by rwa [size_locks])
      ((isFree_make_iff hg key i).mpr hi) hother).imp_right
        (locked_of_not_free hg key (hg.size_eq_area ▸ hlt))
    rw [hperm.length_eq, Nat.max_comm, ← size_locks] at hroom
    exact hroom
  · have hdrops := (Plan.make_eq_attempts g.torus g.params.maxDist.toNat key g.locks).2
    refine ⟨hdrops, ?_⟩
    rw [List.countP_eq_length_filter, ← List.length_map Attempt.pair]
    exact congrArg List.length hdrops
  · exact Plan.apart_make hpair (hperm.mem_iff.mp hp)
      ⟨pair.initiator_mem_cells, pair.partner_mem_cells⟩
  · exact Plan.apart_make hpair (hperm.mem_iff.mp hp)
      ⟨Pair.mem_cells.mpr (.inr rfl), Pair.mem_cells.mpr (.inl rfl)⟩

/-- A ring of eight cells, three of which are not locked: the fourth and the fifth, who may be a
pair, and the first, who has nobody left. -/
def sparseRing : Grid where
  params := { square.params with width := 8, height := 1 }
  epoch := 0
  cells := #[⟨false, Tape.blank, ⟨1⟩⟩, ⟨true, Tape.blank, ⟨2⟩⟩, ⟨true, Tape.blank, ⟨3⟩⟩,
    ⟨false, Tape.blank, ⟨4⟩⟩, ⟨false, Tape.blank, ⟨5⟩⟩, ⟨true, Tape.blank, ⟨6⟩⟩,
    ⟨true, Tape.blank, ⟨7⟩⟩, ⟨true, Tape.blank, ⟨8⟩⟩]

theorem wellFormed_sparseRing : sparseRing.WellFormed where
  valid := (Params.fault?_eq_none_iff _).mp (by decide)
  size_cells := rfl

/-- Two pairs would be possible and one is formed.  The first cell stays unlocked, all it can try is
locked or itself, and four claims are drops, one of them by a cell that is granted its next one. -/
theorem planning_misses_nobody_sparseRing :
    sparseRing.WellFormed ∧ (sparseRing.plan 18).1.pairs = [⟨3, 4⟩] ∧
      (sparseRing.plan 18).2[0]?.map (·.locked) = some false ∧
      (∀ attempt < attemptsPerCell,
        let j := candidate sparseRing.torus 1 18 0 attempt
        j = 0 ∨ (sparseRing.plan 18).2[j]?.map (·.locked) = some true) ∧
      (sparseRing.attempts 18).countP (·.isDrop) = 4 ∧
      ⟨3, 2⟩ ∈ (sparseRing.plan 18).1.abandoned ∧ ⟨2, 3⟩ ∉ (sparseRing.plan 18).1.pairs := by
  have hpairs : (sparseRing.plan 18).1.pairs = [⟨3, 4⟩] := by cbv
  have hfree : (sparseRing.plan 18).2[0]?.map (·.locked) = some false := by cbv
  have habandoned : (sparseRing.plan 18).1.abandoned = [⟨3, 2⟩, ⟨0, 7⟩, ⟨0, 1⟩, ⟨0, 1⟩] := by cbv
  have hdrop : ⟨3, 2⟩ ∈ (sparseRing.plan 18).1.abandoned := by rw [habandoned]; decide
  obtain ⟨hmissed, ⟨-, hcount⟩, hapart⟩ :=
    planning_misses_nobody wellFormed_sparseRing (by decide) (by decide) 18
  exact ⟨wellFormed_sparseRing, hpairs, hfree, hmissed (by rw [hpairs]; decide) 0 hfree,
    hcount ▸ congrArg List.length habandoned, hdrop, (hapart _ hdrop).2⟩

end Grid

end TapeLife
