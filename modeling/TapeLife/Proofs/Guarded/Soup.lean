import TapeLife.Proofs.Grid.Matching
import TapeLife.Proofs.Guarded.Machine
import TapeLife.Proofs.Guarded.Pairing
import TapeLife.Proofs.Saved.Soup

/-!
# Proofs/Guarded/Soup — a soup faults nowhere

    plan ──▸ members ──▸ runs          every operation checked: the same results

The parts come together on a well-formed soup: planning, the members of the plan, distances, runs of
any cells on any budget, and the number of bytes after a header (`Grid.nothing_faults`).
-/

namespace TapeLife

/-- The number of bytes after a header. -/
def Guarded.payloadSize (header : Header) : Guarded Nat := do
  mul (← mul header.width.toNat header.height.toNat) recordSize

theorem Guarded.payloadSize_eq {header : Header} (h : header.fault? = none) :
    payloadSize header = .ok (header.params.cellCount * recordSize) := by
  obtain ⟨-, -, hvalid⟩ := Header.fault?_eq_none_iff.mp h
  have hcells : header.params.cellCount ≤ 0x7fffffff := hvalid.cellCount_le
  have hword : UInt64.size = 18446744073709551616 := rfl
  have hrecord : recordSize = 73 := rfl
  rw [payloadSize, mul_of_lt (by rw [Header.cells_eq h]; omega), ok_bind, Header.cells_eq h,
    mul_of_lt (by rw [hrecord]; omega)]

namespace Grid

/-- **Planning and running never fault.**  On a soup with valid parameters and one cell for every
place, whatever its locks, tapes and streams are and whatever the key is, the checked planning of an
epoch succeeds with the plan that is made without checks, and so do the members of the plan, the
distance of any two of its cells, and every run on a budget that a word can hold.  The bytes after
the header of any soup that can be loaded are counted by a word as well. -/
theorem nothing_faults {g : Grid} (hg : g.WellFormed) (key : UInt64) :
    let planned := Plan.make g.torus g.params.maxDist.toNat key g.locks
    Guarded.plan g.torus g.params.maxDist.toNat key g.locks = .ok
      { locks := planned.2
        buffers := planned.1.stripes.toArray
        formed := planned.1.formed.length
        dropped := planned.1.abandoned.length } ∧
    Guarded.membership planned.1.stripes.toArray g.cells.size
      = .ok (planned.1.membership g.cells.size) ∧
    (∀ a < g.cells.size, ∀ b < g.cells.size,
      Guarded.distance g.torus a b = .ok (g.torus.distance a b)) ∧
    (∀ (budget : UInt64) (cell : Cell),
      Guarded.runAlone budget.toNat cell = .ok (cell.runAlone budget.toNat)) ∧
    (∀ (budget : UInt64) (cell : Cell) (neighbour : Tape),
      Guarded.runBeside budget.toNat cell neighbour
        = .ok (cell.runBeside budget.toNat neighbour)) ∧
    ∀ header : Header, header.fault? = none →
      ∃ size, Guarded.payloadSize header = .ok size ∧ header.payloadSize? = some size := by
  have harea : g.cells.size = g.torus.area := hg.size_cells
  have hlocks : g.locks.size = g.torus.area := by rw [locks, Array.size_map, harea]
  have hsound := Plan.sound_make hlocks g.params.maxDist.toNat key
  refine ⟨Guarded.plan_eq hg.valid key hlocks, ?members, ?distance,
    fun budget cell => Guarded.runAlone_eq budget.toNat_lt_size cell,
    fun budget cell neighbour => Guarded.runBeside_eq budget.toNat_lt_size cell neighbour,
    fun header h => ⟨_, Guarded.payloadSize_eq h, Header.payloadSize?_eq_some h⟩⟩
  case members =>
    exact Guarded.membership_eq fun i hi => by
      rw [harea, ← hlocks]
      exact hsound.holding.lt_size hi
  case distance =>
    exact fun a ha b hb => Guarded.distance_eq hg.valid (harea ▸ ha) (harea ▸ hb)

/-- The one pair of this soup is found with checks as well, and the runs of its cells, with any
neighbour and on the largest budget, end without a fault. -/
theorem nothing_faults_square :
    square.WellFormed ∧
    (Guarded.plan square.torus square.params.maxDist.toNat 0 square.locks).map (·.formed) = .ok 1 ∧
    square.header.fault? = none ∧ Guarded.payloadSize square.header = .ok 292 ∧
    ∀ cell ∈ square.cells, ∀ neighbour : Tape,
      Guarded.runBeside 0xffffffffffffffff cell neighbour
        = .ok (cell.runBeside 0xffffffffffffffff neighbour) := by
  have hformed : (Plan.make square.torus square.params.maxDist.toNat 0 square.locks).1.formed.length
      = 1 := by cbv
  have hheader : square.header.fault? = none := by decide
  obtain ⟨hplan, -, -, -, hbeside, hsize⟩ := nothing_faults wellFormed_square 0
  obtain ⟨size, hchecked, hcounted⟩ := hsize square.header hheader
  refine ⟨wellFormed_square, ?_, hheader, ?_, fun cell _ => hbeside 0xffffffffffffffff cell⟩
  · rw [hplan, Except.map, hformed]
  · rw [hchecked]
    exact congrArg _ (Option.some.inj (hcounted.symm.trans (by decide)))

end Grid

end TapeLife
