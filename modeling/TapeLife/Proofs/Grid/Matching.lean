import Mathlib.Data.List.Permutation
import TapeLife.Grid.Epoch
import TapeLife.Proofs.Pairing.Planning

/-!
# Proofs/Grid/Matching — the plan of an epoch is a matching that holds its own locks

Planning touches nothing but locks (`getElem?_claimed`), and the locks it adds are those of the
members of its pairs.  `Grid.ConflictFree` collects what that gives for a whole plan, and
`conflictFree_plan` says that every well-formed soup gets such a plan under every key.
-/

namespace TapeLife

namespace Grid

variable {g : Grid}

theorem WellFormed.size_eq_area (hg : g.WellFormed) : g.cells.size = g.torus.area := hg.size_cells

theorem size_locks (g : Grid) : g.locks.size = g.cells.size := by simp [locks]

theorem getElem?_locks (g : Grid) (i : Nat) : g.locks[i]? = g.cells[i]?.map (·.locked) := by
  simp [locks]

/-! ## Cells with claims on them -/

@[simp] theorem size_claimed (g : Grid) (key : UInt64) :
    (g.plan key).2.size = g.cells.size := by
  simp [plan]

/-- The plan of an epoch is sound over the locks of the soup. -/
theorem sound_plan (hg : g.WellFormed) (key : UInt64) :
    Plan.Sound g.torus g.params.maxDist.toNat g.locks (g.plan key).1
      (Plan.make g.torus g.params.maxDist.toNat key g.locks).2 :=
  Plan.sound_make (by rw [size_locks, hg.size_eq_area]) _ key

/-- **Planning locks the members of its pairs and leaves everything else alone.** -/
theorem getElem?_claimed (hg : g.WellFormed) (key : UInt64) (i : Nat) :
    (g.plan key).2[i]? = g.cells[i]?.map fun cell =>
      { cell with locked := cell.locked || decide (i ∈ membersOf (g.plan key).1.formed) } := by
  have hlocks := (sound_plan hg key).holding.getElem? i
  rw [getElem?_locks] at hlocks
  simp only [plan, Array.getElem?_mapIdx]
  cases hcell : g.cells[i]? with
  | none => rfl
  | some cell =>
    rw [hcell] at hlocks
    simp only [Option.map_some] at hlocks ⊢
    rw [Array.getD_eq_getD_getElem?, hlocks]
    rfl

/-- The locks after planning are the ones that planning left. -/
theorem locks_claimed (hg : g.WellFormed) (key : UInt64) :
    (g.plan key).2.map (·.locked) = (Plan.make g.torus g.params.maxDist.toNat key g.locks).2 := by
  refine Array.ext_getElem? fun i => ?_
  rw [Array.getElem?_map, getElem?_claimed hg, (sound_plan hg key).holding.getElem? i,
    getElem?_locks, Option.map_map, Option.map_map]
  rfl

/-! ## The whole promise -/

/-- What a plan of a soup, and the cells with the plan's claims on them, promise. -/
structure ConflictFree (g : Grid) (plan : Plan) (claimed : Array Cell) : Prop where
  /-- No cell is in two pairs, or twice in one. -/
  nodup : (membersOf plan.pairs).Nodup
  /-- Members are cells of the soup that were not locked before. -/
  free : ∀ i ∈ membersOf plan.pairs, g.locks[i]? = some false
  /-- Partners are different cells within the radius. -/
  near : ∀ pair ∈ plan.pairs, 1 ≤ g.torus.distance pair.initiator pair.partner ∧
    g.torus.distance pair.initiator pair.partner ≤ g.params.maxDist.toNat
  /-- At most a quarter of the cells lead a pair, but one may always do. -/
  length_le : plan.pairs.length ≤ max 1 (g.cells.size / 4)
  /-- The buffers are what pushing every pair, when it is formed, onto its own buffer gives. -/
  buffers : plan.stripes
    = plan.formed.foldl (pushOnto g.torus.width) (List.replicate stripeCount [])
  /-- A pair that was formed is in one buffer, its own. -/
  mem_buffer_iff : ∀ pair ∈ plan.formed, pair.stripe g.torus.width < stripeCount ∧
    ∀ k, pair ∈ plan.stripe k ↔ k = pair.stripe g.torus.width
  /-- Nothing else is in the buffers, and nothing twice. -/
  stored_once : plan.pairs.Nodup ∧ plan.pairs.Perm plan.formed
  /-- Inside a buffer pairs keep the order in which they were formed. -/
  in_order : ∀ k, (plan.stripe k).Sublist plan.formed
  /-- Of every cell nothing changes but the lock, and it is held now if it was held before or the
  cell is in a pair. -/
  claimed_eq : ∀ i : Nat, claimed[i]? = g.cells[i]?.map fun cell =>
    { cell with locked := cell.locked || (plan.membership g.cells.size).getD i false }
  /-- Releasing the pairs, in any order, restores the locks. -/
  restored : ∀ order : List Pair, order.Perm plan.pairs →
    order.foldl Locks.release (claimed.map fun cell => cell.locked) = g.locks

/-- **Every well-formed soup gets a conflict-free plan under every key.** -/
theorem conflictFree_plan (hg : g.WellFormed) (key : UInt64) :
    g.ConflictFree (g.plan key).1 (g.plan key).2 := by
  have hs := sound_plan hg key
  have hperm := (g.plan key).1.perm_pairs
  have hnodup := (perm_membersOf hperm).nodup_iff.mpr hs.holding.nodup
  refine
    { nodup := hnodup
      free := fun i hi => ?_
      near := fun pair hp => hs.near pair (hperm.mem_iff.mp hp)
      length_le := ?_
      buffers := ?_
      mem_buffer_iff := fun pair hp => ⟨Plan.stripe_lt _ pair, fun k => ?_⟩
      stored_once := ⟨?_, hperm⟩
      in_order := fun k => Plan.stripe_sublist _ k
      claimed_eq := fun i => ?_
      restored := fun order ho => ?_ }
  · exact Locks.isFree_iff.mp (hs.holding.free i ((perm_membersOf hperm).mem_iff.mp hi))
  · rw [hperm.length_eq, Nat.max_comm, ← size_locks]
    exact hs.length_le
  · rw [← hs.width_eq, Plan.foldl_pushOnto]
  · rw [Plan.mem_stripe_iff, hs.width_eq, and_iff_right hp]
  · exact nodup_of_nodup_membersOf hnodup
  · rw [getElem?_claimed hg]
    refine Option.map_congr fun cell hcell => ?_
    have hi : i < g.cells.size := (Array.getElem?_eq_some_iff.mp hcell).1
    rw [Array.getD_eq_getD_getElem?, Plan.getElem?_membership _ hi]
    rfl
  · rw [locks_claimed hg]
    exact hs.holding.foldl_release (ho.trans hperm)

/-! ## A small soup -/

/-- Four cells on a torus smaller than its own window: one replicator, one stale lock, one program
that talks to its partner, and the last epoch that can be counted. -/
def square : Grid where
  params := { seed := 7, fixedShuffle := true, maxSteps := 64, maxDist := 1, rate := ⟨0x3f000000⟩
              width := 2, height := 2 }
  epoch := 0xffffffff
  cells := #[⟨false, Program.replicatorTape, ⟨1⟩⟩, ⟨false, Tape.blank, ⟨2⟩⟩,
    ⟨true, Tape.blank, ⟨3⟩⟩, ⟨false, Tape.ofBytes [0x3f, 0x29, 0x2b, 0x21], ⟨4⟩⟩]

theorem wellFormed_square : square.WellFormed where
  valid := (Params.fault?_eq_none_iff _).mp (by decide)
  size_cells := rfl

/-- The first and the last cell are the pair of this plan, and the locked cell is in none. -/
theorem conflictFree_square :
    square.WellFormed ∧ (square.plan 0).1.pairs = [⟨0, 3⟩] ∧
      square.ConflictFree (square.plan 0).1 (square.plan 0).2 :=
  ⟨wellFormed_square, by cbv, conflictFree_plan wellFormed_square 0⟩

end Grid

end TapeLife
