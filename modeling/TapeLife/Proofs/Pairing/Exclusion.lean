import TapeLife.Pairing.Holders
import TapeLife.Proofs.Pairing.Holding

/-!
# Proofs/Pairing/Exclusion — clients that claim and release do not get in each other's way

    start ──claim──▸ ledger ──release──▸ ledger ──claim──▸ …      any client, any order

A ledger that clients can lead to holds exactly its pairs on top of the locks from the start
(`Ledger.Reachable.holding`): a granted claim adds its pair, a refused one is no step at all, and a
release takes one pair away.  So the pairs that are held at a time are apart from each other and
from the locks of the start, and a claim is granted exactly if nothing stands against it
(`Ledger.exclusive_of_reachable`).
-/

namespace TapeLife

namespace Locks

variable {locks : Locks}

theorem mem_taken_iff {i : Nat} : i ∈ locks.taken ↔ locks[i]? = some true := by
  simp only [taken, List.mem_filter, List.mem_range, beq_iff_eq, and_iff_right_iff_imp]
  exact fun h => (Array.getElem?_eq_some_iff.mp h).1

/-- A cell is free exactly if there is such a cell and it is not taken. -/
theorem isFree_iff_notMem_taken {i : Nat} :
    locks.isFree i = true ↔ i < locks.size ∧ i ∉ locks.taken := by
  rw [isFree_iff, mem_taken_iff]
  by_cases hi : i < locks.size
  · simp [hi]
  · simp [hi]

namespace Holding

variable {before : Locks} {pairs : List Pair}

theorem size_eq (h : Holding before pairs locks) : locks.size = before.size := by
  refine Nat.le_antisymm ?_ ?_
  · have hlast := h.getElem? before.size
    rw [Array.getElem?_eq_none (Nat.le_refl _), Option.map_none] at hlast
    exact Array.getElem?_eq_none_iff.mp hlast
  · have hlast := h.getElem? locks.size
    rw [Array.getElem?_eq_none (Nat.le_refl _), eq_comm, Option.map_eq_none_iff] at hlast
    exact Array.getElem?_eq_none_iff.mp hlast

/-- What is taken was taken before or is held. -/
theorem mem_taken_iff (h : Holding before pairs locks) {i : Nat} :
    i ∈ locks.taken ↔ i ∈ before.taken ∨ i ∈ membersOf pairs := by
  rw [Locks.mem_taken_iff, Locks.mem_taken_iff, h.getElem? i]
  by_cases hi : i ∈ membersOf pairs
  · simp [hi, h.lt_size hi]
  · simp [hi]

end Holding

end Locks

namespace Ledger

variable {initial : Locks} {ledger : Ledger}

/-! ## One move -/

/-- A claim is granted exactly if its cells can be claimed. -/
theorem snd_claim (ledger : Ledger) (a b : Nat) :
    (ledger.claim a b).2 = ledger.locks.isClaimable a b := by
  rw [claim, Locks.claim]
  cases ledger.locks.isClaimable a b <;> rfl

/-- A claim that is refused is no step. -/
theorem fst_claim_of_refused {a b : Nat} (h : (ledger.claim a b).2 = false) :
    (ledger.claim a b).1 = ledger := by
  rw [snd_claim] at h
  simp [claim, Locks.claim, h]

/-- A claim that is granted takes both cells and holds the pair. -/
theorem fst_claim_of_granted {a b : Nat} (h : (ledger.claim a b).2 = true) :
    (ledger.claim a b).1 = ⟨ledger.locks.hold a b, ⟨a, b⟩ :: ledger.held⟩ := by
  rw [snd_claim] at h
  simp [claim, Locks.claim, h]

/-! ## All moves -/

/-- **The pairs that are held hold their cells**, on top of the locks from the start, whatever was
claimed and released. -/
theorem Reachable.holding (h : Reachable initial ledger) :
    initial.Holding ledger.held ledger.locks := by
  induction h with
  | start => exact .start initial
  | @claim ledger a b _ ih =>
    rcases hanswer : (ledger.claim a b).2 with _ | _
    · rwa [fst_claim_of_refused hanswer]
    · rw [fst_claim_of_granted hanswer]
      exact ih.claim (snd_claim ledger a b ▸ hanswer)
  | release hp _ ih => exact ih.release hp

/-- **Claims exclude each other**, however the moves of the clients interleave.  The pairs that are
held share no cell, each of them is two different cells, and none of these was taken at the start;
the cells that are taken are those of the start and those of the pairs.  A claim that is refused
changes nothing, and a claim is granted exactly if it asks for two different cells of which neither
was taken at the start or is in a pair that is held. -/
theorem exclusive_of_reachable (h : Reachable initial ledger) :
    (ledger.held.Pairwise fun p q => p.cells.Disjoint q.cells) ∧
      (∀ pair ∈ ledger.held, pair.initiator ≠ pair.partner ∧
        ∀ i ∈ pair.cells, i ∉ initial.taken) ∧
      ledger.locks.size = initial.size ∧
      (∀ i, i ∈ ledger.locks.taken ↔
        i ∈ initial.taken ∨ ∃ pair ∈ ledger.held, i ∈ pair.cells) ∧
      ∀ a b,
        ((ledger.claim a b).2 = false → (ledger.claim a b).1.locks = ledger.locks) ∧
          ((ledger.claim a b).2 = true ↔ a ≠ b ∧ ∀ i ∈ [a, b], i < initial.size ∧
            i ∉ initial.taken ∧ ∀ pair ∈ ledger.held, i ∉ pair.cells) := by
  have hh := h.holding
  refine ⟨disjoint_cells hh.nodup, fun pair hp => ⟨?_, fun i hi => ?_⟩, hh.size_eq, fun i => ?_,
    fun a b => ⟨fun hrefused => ?_, ?_⟩⟩
  · have hcells : pair.cells.Nodup := (List.nodup_flatMap.mp hh.nodup).1 pair hp
    simpa [Pair.cells] using hcells
  · have hfree := hh.free i (mem_membersOf.mpr ⟨pair, hp, hi⟩)
    exact (Locks.isFree_iff_notMem_taken.mp hfree).2
  · rw [hh.mem_taken_iff, mem_membersOf]
  · rw [fst_claim_of_refused hrefused]
  · have hfree : ∀ i, ledger.locks.isFree i = true ↔ i < initial.size ∧ i ∉ initial.taken ∧
        ∀ pair ∈ ledger.held, i ∉ pair.cells := fun i => by
      rw [hh.isFree_iff, Locks.isFree_iff_notMem_taken, mem_membersOf, and_assoc]
      simp only [not_exists, not_and]
    rw [snd_claim, Locks.isClaimable_iff, hfree a, hfree b]
    simp only [List.forall_mem_cons, List.not_mem_nil, IsEmpty.forall_iff, implies_true, and_true]

/-- Five cells, one of them taken at the start: two claims that are granted, one between them that
is refused because it asks for a held cell, and one release. -/
theorem exclusive_of_reachable_five :
    let initial : Locks := #[false, true, false, false, false]
    let before := (((start initial).claim 0 2).1.claim 2 3).1.claim 4 3
    let ledger := before.1.release ⟨0, 2⟩
    before.1.held = [⟨4, 3⟩, ⟨0, 2⟩] ∧ Reachable initial ledger ∧
      (∀ i, i ∈ ledger.locks.taken ↔
        i ∈ initial.taken ∨ ∃ pair ∈ ledger.held, i ∈ pair.cells) ∧
      ((ledger.claim 2 0).2 = true ↔ 2 ≠ 0 ∧ ∀ i ∈ [2, 0], i < initial.size ∧
        i ∉ initial.taken ∧ ∀ pair ∈ ledger.held, i ∉ pair.cells) := by
  intro initial before ledger
  have hheld : before.1.held = [⟨4, 3⟩, ⟨0, 2⟩] := by decide
  have hledger : Reachable initial ledger :=
    .release (hheld ▸ by decide) (.claim 4 3 (.claim 2 3 (.claim 0 2 .start)))
  obtain ⟨-, -, -, htaken, hclaim⟩ := exclusive_of_reachable hledger
  exact ⟨hheld, hledger, htaken, (hclaim 2 0).2⟩

end Ledger

end TapeLife
