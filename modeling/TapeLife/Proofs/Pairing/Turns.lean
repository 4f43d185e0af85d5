import TapeLife.Proofs.Pairing.Attempts

/-!
# Proofs/Pairing/Turns — every cell has one turn

    order      c₀ ──▸ c₁ ──▸ c₂ ──▸ …       every cell once
               │      │      │
    attempts   · ·    ·                      none by a cell that is taken, none once enough pairs exist

The turns of an epoch are those of the shuffled order, one after the other, whether anything is tried
in them or not (`Plan.turns`).  Since the order is a permutation of the cells (`keyedOrder_perm`),
every cell has exactly one, and its attempts are all made in it (`one_turn_each`).
-/

namespace TapeLife

/-- The turn of a cell, with all that it tries. -/
structure Turn where
  cell : Nat
  attempts : List Attempt

namespace Ledger

/-- One turn: a cell that is free tries its partners, unless enough pairs are held. -/
def takeTurn (limit : Nat) (partners : Nat → List Nat) (ledger : Ledger) (cell : Nat) :
    List Attempt × Ledger :=
  if limit ≤ ledger.held.length || !ledger.locks.isFree cell then ([], ledger)
  else tryAll cell (partners cell) ledger

/-- All turns of an order. -/
def turns (limit : Nat) (partners : Nat → List Nat) : List Nat → Ledger → List Turn
  | [], _ => []
  | cell :: order, ledger =>
    let (attempts, ledger) := takeTurn limit partners ledger cell
    ⟨cell, attempts⟩ :: turns limit partners order ledger

section Turns

variable {limit : Nat} {partners : Nat → List Nat} {ledger : Ledger}

theorem map_cell_turns (order : List Nat) :
    (turns limit partners order ledger).map (·.cell) = order := by
  induction order generalizing ledger with
  | nil => rfl
  | cons cell order ih => exact congrArg (cell :: ·) ih

theorem takeTurn_of_full (h : limit ≤ ledger.held.length) (cell : Nat) :
    takeTurn limit partners ledger cell = ([], ledger) := by
  simp [takeTurn, h]

/-- Once enough pairs are held, turns go by without attempts. -/
theorem flatMap_turns_of_full (h : limit ≤ ledger.held.length) (order : List Nat) :
    (turns limit partners order ledger).flatMap (·.attempts) = [] := by
  induction order with
  | nil => rfl
  | cons cell order ih =>
    rw [turns, takeTurn_of_full h]
    exact ih

/-- **The history consists of the turns**, one after the other. -/
theorem fst_takeTurns_eq (order : List Nat) :
    (takeTurns limit partners order ledger).1
      = (turns limit partners order ledger).flatMap (·.attempts) := by
  induction order generalizing ledger with
  | nil => rfl
  | cons cell order ih =>
    by_cases hfull : limit ≤ ledger.held.length
    · rw [flatMap_turns_of_full hfull, takeTurns, if_pos hfull]
    · rw [takeTurns, if_neg hfull, turns, List.flatMap_cons]
      cases hfree : ledger.locks.isFree cell with
      | true =>
        have hturn : takeTurn limit partners ledger cell = tryAll cell (partners cell) ledger := by
          simp [takeTurn, hfull, hfree]
        rw [hturn, ← ih]
        rfl
      | false =>
        have hturn : takeTurn limit partners ledger cell = ([], ledger) := by
          simp [takeTurn, hfree]
        rw [hturn, ← ih]
        rfl

/-- A cell tries its partners in their order, as far as it gets. -/
theorem tryAll_isPrefix (cell : Nat) (others : List Nat) (ledger : Ledger) :
    (tryAll cell others ledger).1.map (·.pair) <+: others.map (Pair.mk cell) := by
  induction others generalizing ledger with
  | nil => exact List.nil_prefix
  | cons other rest ih =>
    rw [tryAll]
    rcases ledger.claim cell other with ⟨ledger', _ | _⟩
    · exact List.prefix_cons_inj _ |>.mpr (ih ledger')
    · exact List.prefix_cons_inj _ |>.mpr List.nil_prefix

/-- In a turn only its cell tries anything, and only its partners. -/
theorem attempts_of_mem_turns {order : List Nat} {turn : Turn}
    (h : turn ∈ turns limit partners order ledger) :
    turn.attempts.map (·.pair) <+: (partners turn.cell).map (Pair.mk turn.cell) := by
  induction order generalizing ledger with
  | nil => cases h
  | cons cell order ih =>
    rcases List.mem_cons.mp h with rfl | h
    · change (takeTurn limit partners ledger cell).1.map (·.pair) <+: _
      rw [takeTurn]
      split
      · exact List.nil_prefix
      · exact tryAll_isPrefix cell (partners cell) ledger
    · exact ih h

end Turns

end Ledger

namespace Plan

/-- The turns of an epoch: none at all if nobody can meet anybody. -/
def turns (torus : Torus) (radius : Nat) (key : UInt64) (locks : Locks) : List Turn :=
  if radius = 0 ∨ locks.size < 2 then []
  else (Ledger.turns (pairLimit locks.size) (candidates torus radius key)
    (keyedOrder locks.size key) (.start locks))

variable {torus : Torus} {radius : Nat} {key : UInt64} {locks : Locks}

theorem attempts_eq_flatMap_turns :
    attempts torus radius key locks = (turns torus radius key locks).flatMap (·.attempts) := by
  rw [attempts, turns]
  split
  · rfl
  · exact Ledger.fst_takeTurns_eq _

theorem map_cell_turns_of_idle (h : radius = 0 ∨ locks.size < 2) :
    (turns torus radius key locks).map (·.cell) = [] := by
  rw [turns, if_pos h]
  rfl

theorem map_cell_turns (h : ¬(radius = 0 ∨ locks.size < 2)) :
    (turns torus radius key locks).map (·.cell) = keyedOrder locks.size key := by
  rw [turns, if_neg h]
  exact Ledger.map_cell_turns _

end Plan

theorem count_keyedOrder (n : Nat) (key : UInt64) (i : Nat) :
    (keyedOrder n key).count i = if i < n then 1 else 0 := by
  rw [(keyedOrder_perm n key).count_eq, List.nodup_range.count]
  simp only [List.mem_range]

/-- **The order of turns is a permutation of the cells.**  So in an epoch no cell has two turns, and if
anybody can meet anybody every cell has one.  All that is tried in the epoch is tried in these turns,
and in a turn its cell tries its own candidates in their order. -/
theorem one_turn_each :
    (∀ (n : Nat) (key : UInt64), (keyedOrder n key).Perm (List.range n) ∧
      ∀ i, (keyedOrder n key).count i = if i < n then 1 else 0) ∧
    ∀ (torus : Torus) (radius : Nat) (key : UInt64) (locks : Locks),
      let turns := Plan.turns torus radius key locks
      (∀ i, (turns.map (·.cell)).count i ≤ 1) ∧
      (radius ≠ 0 → 2 ≤ locks.size → ∀ i < locks.size, i ∈ turns.map (·.cell)) ∧
      Plan.attempts torus radius key locks = turns.flatMap (·.attempts) ∧
      ∀ turn ∈ turns, turn.attempts.map (·.pair)
        <+: (candidates torus radius key turn.cell).map (Pair.mk turn.cell) := by
  refine ⟨fun n key => ⟨keyedOrder_perm n key, count_keyedOrder n key⟩,
    fun torus radius key locks => ⟨fun i => ?_, fun hradius hsize i hi => ?_,
      Plan.attempts_eq_flatMap_turns, fun turn hturn => ?_⟩⟩
  · by_cases hidle : radius = 0 ∨ locks.size < 2
    · rw [Plan.map_cell_turns_of_idle hidle]
      exact Nat.zero_le 1
    · rw [Plan.map_cell_turns hidle, count_keyedOrder]
      split <;> omega
  · rw [Plan.map_cell_turns (by omega)]
    exact mem_keyedOrder.mpr hi
  · rw [Plan.turns] at hturn
    split at hturn
    · cases hturn
    · exact Ledger.attempts_of_mem_turns hturn

/-- In a ring of five all cells have their turn, the second of them too. -/
theorem one_turn_each_ring :
    let locks : Locks := #[false, true, false, false, false]
    ((1 : Nat) ≠ 0 ∧ 2 ≤ locks.size ∧ 1 < locks.size) ∧
      1 ∈ (Plan.turns ⟨5, 1⟩ 1 7 locks).map (·.cell) ∧
      (Plan.turns ⟨5, 1⟩ 1 7 locks).map (·.cell) = keyedOrder 5 7 ∧
      (keyedOrder 5 7).count 1 = 1 := by
  refine ⟨⟨by decide, by decide, by decide⟩, ?_, Plan.map_cell_turns (by decide), ?_⟩
  · exact (one_turn_each.2 ⟨5, 1⟩ 1 7 #[false, true, false, false, false]).2.1 (by decide)
      (by decide) 1 (by decide)
  · exact (one_turn_each.1 5 7).2 1

end TapeLife
