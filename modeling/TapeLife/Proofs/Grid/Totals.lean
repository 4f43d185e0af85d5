import Mathlib.Algebra.BigOperators.Group.List.Basic
import TapeLife.Grid.Totals

/-!
# Proofs/Grid/Totals — counts add up

Counts form a commutative monoid, so the count of a list of runs is the library's sum
(`Totals.sum_eq`) and depends neither on the order of the runs nor on how they are grouped.
-/

namespace TapeLife

attribute [ext] Totals

namespace Totals

instance : Zero Totals := ⟨{}⟩

instance : AddCommMonoid Totals where
  add_assoc a b c := by ext <;> exact Nat.add_assoc _ _ _
  zero_add a := by ext <;> exact Nat.zero_add _
  add_zero a := by ext <;> exact Nat.add_zero _
  add_comm a b := by ext <;> exact Nat.add_comm _ _
  nsmul := nsmulRec

theorem add_def (a b : Totals) : a + b = a.add b := rfl

theorem sum_eq (all : List Totals) : sum all = all.sum := by
  rw [sum, List.sum_eq_foldl]
  rfl

/-- Two lists of counts may be added up apart. -/
theorem sum_append (a b : List Totals) : sum (a ++ b) = sum a + sum b := by
  simp only [sum_eq, List.sum_append]

theorem interactions_eq_nsmul (n : Nat) :
    ({ interactions := n } : Totals) = n • ({ interactions := 1 } : Totals) := by
  induction n with
  | zero => rw [zero_nsmul]; rfl
  | succ n ih => rw [succ_nsmul, ← ih]; rfl

theorem soloRuns_eq_nsmul (n : Nat) :
    ({ soloRuns := n } : Totals) = n • ({ soloRuns := 1 } : Totals) := by
  induction n with
  | zero => rw [zero_nsmul]; rfl
  | succ n ih => rw [succ_nsmul, ← ih]; rfl

/-- Fields of a count may be counted apart. -/
theorem mk_runs (epochs interactions soloRuns droppedClaims : Nat) :
    ({ epochs, interactions, soloRuns, droppedClaims } : Totals)
      = { epochs, droppedClaims } + { interactions } + { soloRuns } := by
  ext
  all_goals simp [add_def, add]

/-- **Counting runs apart from what they did comes to the same as counting each run with what it
did.** -/
theorem nsmul_length_add_sum {β : Type} (tick : Totals) (did : β → Option Totals) (runs : List β) :
    (runs.filterMap did).length • tick + (runs.filterMap did).sum
      = (runs.map fun run => (did run).elim 0 (· + tick)).sum := by
  induction runs with
  | nil => simp
  | cons run runs ih =>
    rw [List.map_cons, List.sum_cons, ← ih]
    rcases h : did run with _ | totals
    · rw [List.filterMap_cons_none h, Option.elim_none, zero_add]
    · rw [List.filterMap_cons_some h, List.length_cons, List.sum_cons, succ_nsmul,
        Option.elim_some]
      ac_rfl

end Totals

end TapeLife
