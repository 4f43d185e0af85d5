/-!
# Number/Rounding — a quotient to the nearest whole number

`roundRatio` rounds an exact quotient.  The nearest whole number is not unique when the quotient
lies halfway between two; a `Tie` says which of them is taken.
-/

namespace TapeLife

/-- Where a quotient halfway between two whole numbers goes. -/
inductive Tie
  /-- To the larger one. -/
  | up
  /-- To the even one. -/
  | even
deriving DecidableEq, Repr

/-- The whole number nearest to `num / den`. -/
def roundRatio (num den : Nat) (tie : Tie) : Nat :=
  let low := num / den
  let twice := 2 * (num % den)
  if twice < den then low
  else if den < twice then low + 1
  else match tie with
    | .up => low + 1
    | .even => if low % 2 = 0 then low else low + 1

/-- The rounded quotient is at most half a unit away. -/
theorem roundRatio_near {den : Nat} (num : Nat) (tie : Tie) (h : 0 < den) :
    2 * (den * roundRatio num den tie) ≤ 2 * num + den ∧
      2 * num ≤ 2 * (den * roundRatio num den tie) + den := by
  have hsplit := Nat.div_add_mod num den
  have hlt := Nat.mod_lt num h
  have hup : den * (num / den + 1) = den * (num / den) + den := Nat.mul_succ ..
  simp only [roundRatio]
  generalize num / den = q at *
  split
  · omega
  · split
    · omega
    · cases tie with
      | up => simp only; omega
      | even => simp only; split <;> omega

end TapeLife
