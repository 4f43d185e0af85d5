import TapeLife.Pairing.Attempts
import TapeLife.Proofs.Pairing.Exclusion
import TapeLife.Proofs.Pairing.Planning

/-!
# Proofs/Pairing/Attempts — a plan is the digest of its history

    p ──note──▸ p ──note──▸ …       granted: one more pair formed
                                    dropped: one more candidate abandoned

A plan in the making and a ledger that match, with the same locks and as many pairs, go on to match:
the cell claims in its turn what the ledger grants (`Planning.Matches.pairUp`), and the turns end
together (`Planning.Matches.foldl_turn`).  So the pairs of a plan are the granted attempts of its
history and its abandoned candidates the drops, both in order (`Plan.make_eq_attempts`).
-/

namespace TapeLife

namespace Ledger

variable {ledger : Ledger} {a b : Nat}

theorem claim_of_isClaimable (h : ledger.locks.isClaimable a b = true) :
    ledger.claim a b = (⟨ledger.locks.hold a b, ⟨a, b⟩ :: ledger.held⟩, true) := by
  have hgranted := (ledger.snd_claim a b).trans h
  exact Prod.ext (fst_claim_of_granted hgranted) hgranted

theorem claim_of_not_isClaimable (h : ledger.locks.isClaimable a b = false) :
    ledger.claim a b = (ledger, false) := by
  have hrefused := (ledger.snd_claim a b).trans h
  exact Prod.ext (fst_claim_of_refused hrefused) hrefused

end Ledger

namespace Planning

/-- What an attempt adds to a plan in the making. -/
def note (p : Planning) (attempt : Attempt) : Planning :=
  if attempt.granted then p.form attempt.pair
  else p.abandon (inVain attempt.pair.initiator [attempt.pair.partner])

/-- A ledger with the locks of a plan in the making, and with as many pairs. -/
structure Matches (p : Planning) (ledger : Ledger) : Prop where
  locks_eq : p.locks = ledger.locks
  size_formed : p.formed.size = ledger.held.length

variable {p : Planning} {ledger : Ledger}

theorem pairUp_cons_of_isClaimable {cell other : Nat} {rest : List Nat}
    (h : p.locks.isClaimable cell other = true) :
    p.pairUp cell (other :: rest) = p.form ⟨cell, other⟩ := by
  rw [Planning.pairUp, if_neg (Locks.isClaimable_iff.mp h).1.symm, if_pos h, Planning.form]

/-- A history adds its granted pairs and its drops, in order. -/
theorem toList_foldl_note (attempts : List Attempt) (p : Planning) :
    (attempts.foldl note p).formed.toList
        = p.formed.toList ++ (attempts.filter (·.granted)).map (·.pair) ∧
      (attempts.foldl note p).abandoned.toList
        = p.abandoned.toList ++ (attempts.filter (·.isDrop)).map (·.pair) := by
  induction attempts generalizing p with
  | nil => simp
  | cons attempt attempts ih =>
    obtain ⟨hformed, habandoned⟩ := ih (p.note attempt)
    rw [List.foldl_cons, hformed, habandoned]
    obtain ⟨⟨cell, other⟩, granted⟩ := attempt
    cases granted
    · by_cases hself : other = cell <;>
        simp [note, abandon, inVain, Attempt.isDrop, hself]
    · simp [note, form, Attempt.isDrop]

theorem Matches.abandon (h : p.Matches ledger) (pairs : List Pair) :
    (p.abandon pairs).Matches ledger := ⟨h.locks_eq, h.size_formed⟩

theorem Matches.form (h : p.Matches ledger) {a b : Nat} :
    (p.form ⟨a, b⟩).Matches ⟨ledger.locks.hold a b, ⟨a, b⟩ :: ledger.held⟩ where
  locks_eq := by rw [Planning.form, h.locks_eq]
  size_formed := by rw [Planning.form, Array.size_push, h.size_formed, List.length_cons]

/-- **In its turn a cell does what the ledger answers.** -/
theorem Matches.pairUp (h : p.Matches ledger) (cell : Nat) (others : List Nat) :
    p.pairUp cell others = (Ledger.tryAll cell others ledger).1.foldl note p ∧
      (p.pairUp cell others).Matches (Ledger.tryAll cell others ledger).2 := by
  induction others generalizing p with
  | nil => exact ⟨rfl, h⟩
  | cons other rest ih =>
    rw [Ledger.tryAll]
    cases hclaim : ledger.locks.isClaimable cell other with
    | true =>
      rw [Ledger.claim_of_isClaimable hclaim]
      rw [← h.locks_eq] at hclaim
      rw [pairUp_cons_of_isClaimable hclaim]
      exact ⟨rfl, h.form⟩
    | false =>
      rw [Ledger.claim_of_not_isClaimable hclaim]
      rw [← h.locks_eq] at hclaim
      rw [pairUp_cons_of_refuses (.inr hclaim)]
      exact ih (h.abandon (inVain cell [other]))

/-- Nobody does anything once enough pairs exist. -/
theorem foldl_turn_of_full {limit : Nat} (h : limit ≤ p.formed.size) (partners : Nat → List Nat)
    (order : List Nat) : order.foldl (turn limit partners) p = p := by
  induction order with
  | nil => rfl
  | cons cell order ih =>
    have hturn : p.turn limit partners cell = p := by simp [turn, h]
    rw [List.foldl_cons, hturn, ih]

/-- **All turns together do what the ledger answers**, attempt by attempt. -/
theorem Matches.foldl_turn (h : p.Matches ledger) (limit : Nat) (partners : Nat → List Nat)
    (order : List Nat) :
    order.foldl (turn limit partners) p
      = (ledger.takeTurns limit partners order).1.foldl note p := by
  induction order generalizing p ledger with
  | nil => rfl
  | cons cell order ih =>
    rw [List.foldl_cons, Ledger.takeTurns, ← h.size_formed, ← h.locks_eq]
    split_ifs with hfull hfree
    · have hturn : p.turn limit partners cell = p := by simp [turn, hfull]
      rw [hturn, foldl_turn_of_full hfull]
      rfl
    · obtain ⟨hpair, hmatches⟩ := h.pairUp cell (partners cell)
      have hturn : p.turn limit partners cell = p.pairUp cell (partners cell) := by
        simp [turn, hfull, hfree]
      rw [hturn, ih hmatches, List.foldl_append, ← hpair]
    · have hturn : p.turn limit partners cell = p := by simp [turn, hfree]
      rw [hturn, ih h]

end Planning

/-- **A plan consists of what its planning was granted and what it was refused**, in order. -/
theorem Plan.make_eq_attempts (torus : Torus) (radius : Nat) (key : UInt64) (locks : Locks) :
    (make torus radius key locks).1.formed
        = ((attempts torus radius key locks).filter (·.granted)).map (·.pair) ∧
      (make torus radius key locks).1.abandoned
        = ((attempts torus radius key locks).filter (·.isDrop)).map (·.pair) := by
  rw [make, attempts]
  split_ifs with hidle
  · exact ⟨rfl, rfl⟩
  · have hstart : (Planning.mk locks #[] #[]).Matches (.start locks) := ⟨rfl, rfl⟩
    simpa [hstart.foldl_turn] using Planning.toList_foldl_note
      ((Ledger.start locks).takeTurns (pairLimit locks.size) (candidates torus radius key)
        (keyedOrder locks.size key)).1 ⟨locks, #[], #[]⟩

end TapeLife
