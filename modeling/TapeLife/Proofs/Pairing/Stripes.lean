import Mathlib.Data.List.Induction
import TapeLife.Proofs.Pairing.Holding

/-!
# Proofs/Pairing/Stripes — the buffers that pairs are spread over

A plan keeps its pairs in the order in which they were formed and reads its stripes off them.
Putting every pair, when it is formed, at the end of the buffer of its stripe comes to the same
(`foldl_pushOnto`).  Stripe by stripe the pairs are a rearrangement of the pairs as they were formed
(`perm_pairs`), and marking the cells of all pairs gives their members (`getElem?_membership`).
-/

namespace TapeLife

/-- A pair is put at the end of the buffer of its stripe. -/
def pushOnto (width : Nat) (buffers : List (List Pair)) (pair : Pair) : List (List Pair) :=
  buffers.modify (pair.stripe width) (· ++ [pair])

namespace Plan

variable (plan : Plan)

theorem stripe_lt (width : Nat) (pair : Pair) : pair.stripe width < stripeCount :=
  Nat.mod_lt _ (by decide)

/-- A pair of the plan is in one stripe, its own. -/
theorem mem_stripe_iff {k : Nat} {pair : Pair} :
    pair ∈ plan.stripe k ↔ pair ∈ plan.formed ∧ k = pair.stripe plan.width := by
  rw [stripe, List.mem_filter, decide_eq_true_iff, eq_comm]

/-- Inside a stripe the pairs stay in the order in which they were formed. -/
theorem stripe_sublist (k : Nat) : (plan.stripe k).Sublist plan.formed := List.filter_sublist

theorem getElem?_stripes {k : Nat} (hk : k < stripeCount) :
    plan.stripes[k]? = some (plan.stripe k) := by
  simp [stripes, hk]

/-! ## Buffers filled pair by pair -/

/-- One more pair formed, one more pair at the end of its buffer. -/
theorem stripes_concat (width : Nat) (formed abandoned : List Pair) (pair : Pair) :
    (Plan.mk width (formed ++ [pair]) abandoned).stripes
      = pushOnto width (Plan.mk width formed abandoned).stripes pair := by
  refine List.ext_getElem? fun k => ?_
  rw [pushOnto, List.getElem?_modify]
  by_cases hk : k < stripeCount
  · rw [getElem?_stripes _ hk, getElem?_stripes _ hk]
    by_cases hs : pair.stripe width = k <;> simp [stripe, hs]
  · have hlen : ∀ p : Plan, p.stripes.length ≤ k := fun p => by
      simpa [stripes] using Nat.le_of_not_lt hk
    rw [List.getElem?_eq_none (hlen _), List.getElem?_eq_none (hlen _)]
    simp

/-- **Pairs pushed one by one onto empty buffers fill the stripes.** -/
theorem foldl_pushOnto :
    plan.formed.foldl (pushOnto plan.width) (List.replicate stripeCount []) = plan.stripes := by
  obtain ⟨width, formed, abandoned⟩ := plan
  induction formed using List.reverseRecOn with
  | nil => rfl
  | append_singleton formed pair ih =>
    simp only [List.foldl_append, List.foldl_cons, List.foldl_nil] at ih ⊢
    rw [ih, stripes_concat]

/-! ## All pairs, stripe by stripe -/

/-- The parts of a list that a bounded label tells apart are together the whole list. -/
theorem perm_flatten_filter {α : Type} (label : α → Nat) (n : Nat) (l : List α)
    (h : ∀ a ∈ l, label a < n) :
    ((List.range n).map fun k => l.filter fun a => label a = k).flatten.Perm l := by
  induction n generalizing l with
  | zero =>
    obtain rfl : l = [] := List.eq_nil_iff_forall_not_mem.mpr fun a ha => absurd (h a ha) (by simp)
    simp
  | succ n ih =>
    have hlow : ∀ a ∈ l.filter (fun a => label a < n), label a < n := fun a ha => by simp_all
    have hparts : ∀ k ∈ List.range n, (l.filter fun a => label a = k)
        = (l.filter fun a => label a < n).filter fun a => label a = k := by
      intro k hk
      rw [List.filter_filter]
      refine List.filter_congr fun a _ => ?_
      have := List.mem_range.mp hk
      grind
    have hlast : (l.filter fun a => label a = n) = l.filter fun a => !decide (label a < n) :=
      List.filter_congr fun a ha => by have := h a ha; grind
    rw [List.range_succ, List.map_append, List.flatten_append, List.map_congr_left hparts]
    simp only [List.map_cons, List.map_nil, List.flatten_cons, List.flatten_nil, List.append_nil]
    rw [hlast]
    exact ((ih _ hlow).append_right _).trans (List.filter_append_perm _ l)

/-- **Stripe by stripe, every pair that was formed appears as often as it was formed.** -/
theorem perm_pairs : plan.pairs.Perm plan.formed :=
  perm_flatten_filter (Pair.stripe plan.width) stripeCount plan.formed
    fun pair _ => stripe_lt plan.width pair

/-! ## Members -/

theorem hasMember_iff {i : Nat} : plan.hasMember i = true ↔ i ∈ membersOf plan.formed := by
  simp only [hasMember, List.any_eq_true, Bool.or_eq_true, beq_iff_eq, mem_membersOf,
    Pair.mem_cells, @eq_comm _ i]

theorem getElem?_foldl_hold (pairs : List Pair) (locks : Locks) (i : Nat) :
    (pairs.foldl (fun locks pair => locks.hold pair.initiator pair.partner) locks)[i]?
      = locks[i]?.map (· || decide (i ∈ membersOf pairs)) := by
  induction pairs generalizing locks with
  | nil => simp
  | cons pair pairs ih =>
    rw [List.foldl_cons, ih, Locks.getElem?_hold, Option.map_map]
    congr 1
    funext taken
    simp only [Function.comp_apply, membersOf_cons, Pair.cells, List.mem_append, Bool.decide_or,
      Bool.or_assoc]

/-- Marking the cells of every pair marks the members, and nobody else. -/
theorem getElem?_membership {n i : Nat} (hi : i < n) :
    (plan.membership n)[i]? = some (decide (i ∈ membersOf plan.formed)) := by
  refine (getElem?_foldl_hold plan.formed (Array.replicate n false) i).trans ?_
  simp [hi]

end Plan

end TapeLife
