/-!
# Proofs/Outcome — sequences that may fail

A sequence of computations that may fail succeeds exactly if all of them do.
-/

namespace TapeLife

namespace Except

variable {ε α β : Type}

/-- A sequence succeeds if both parts do. -/
theorem bind_eq_ok_iff {x : Except ε α} {f : α → Except ε β} {b : β} :
    (x >>= f) = .ok b ↔ ∃ a, x = .ok a ∧ f a = .ok b := by
  cases x <;> simp [bind, Except.bind]

theorem pure_eq_ok_iff {a b : α} : (pure a : Except ε α) = .ok b ↔ a = b := by
  simp [pure, Except.pure]

end Except

end TapeLife
