/-!
# Guarded/Basic — words that do not wrap, and places that are there

The rest of the library counts without a bound and looks things up where they may be missing.  A
machine has words of sixty-four bits, with or without a sign, and arrays that end somewhere.  Here
every operation checks what a machine needs: that its result fits into a word, that a divisor is not
zero, that a place is in its array.  An operation that must not be done is a `Fault`, and one that
may be done gives what it gives without a bound.
-/

namespace TapeLife

/-- Why an operation must not be done. -/
inductive Guarded.Fault
  /-- The result does not fit into its word. -/
  | overflow
  | zeroDivisor
  /-- There is no such place in the array. -/
  | outOfRange
  /-- Two sizes differ that have to be the same. -/
  | mismatch
deriving DecidableEq, Repr

/-- A computation of which every operation is checked. -/
abbrev Guarded (α : Type) := Except Guarded.Fault α

namespace Guarded

variable {α β : Type}

@[simp] theorem ok_bind (a : α) (f : α → Guarded β) : (Except.ok a >>= f : Guarded β) = f a := rfl

@[simp] theorem pure_eq_ok (a : α) : (pure a : Guarded α) = .ok a := rfl

/-! ## Words without a sign -/

/-- A number as a word. -/
def word (n : Nat) : Guarded Nat := if n < UInt64.size then .ok n else .error .overflow

def add (a b : Nat) : Guarded Nat := word (a + b)

def mul (a b : Nat) : Guarded Nat := word (a * b)

def sub (a b : Nat) : Guarded Nat := if b ≤ a then .ok (a - b) else .error .overflow

def quot (a b : Nat) : Guarded Nat := if b = 0 then .error .zeroDivisor else .ok (a / b)

def rem (a b : Nat) : Guarded Nat := if b = 0 then .error .zeroDivisor else .ok (a % b)

theorem add_of_lt {a b : Nat} (h : a + b < UInt64.size) : add a b = .ok (a + b) := if_pos h

theorem mul_of_lt {a b : Nat} (h : a * b < UInt64.size) : mul a b = .ok (a * b) := if_pos h

theorem sub_of_le {a b : Nat} (h : b ≤ a) : sub a b = .ok (a - b) := if_pos h

theorem quot_of_pos {b : Nat} (h : 0 < b) (a : Nat) : quot a b = .ok (a / b) :=
  if_neg (Nat.ne_of_gt h)

theorem rem_of_pos {b : Nat} (h : 0 < b) (a : Nat) : rem a b = .ok (a % b) :=
  if_neg (Nat.ne_of_gt h)

/-! ## Words with a sign -/

/-- Half of the words with a sign are below zero. -/
def signedLimit : Int := 0x8000000000000000

/-- A number as a word with a sign. -/
def signed (n : Int) : Guarded Int :=
  if -signedLimit ≤ n ∧ n < signedLimit then .ok n else .error .overflow

def addSigned (a b : Int) : Guarded Int := signed (a + b)

def subSigned (a b : Int) : Guarded Int := signed (a - b)

/-- The remainder that is not below zero.  The smallest word has no quotient by minus one. -/
def remSigned (a b : Int) : Guarded Int :=
  if b = 0 then .error .zeroDivisor
  else if a = -signedLimit ∧ b = -1 then .error .overflow
  else .ok (a % b)

/-- A word with a sign as one without. -/
def unsigned (n : Int) : Guarded Nat := if 0 ≤ n then .ok n.toNat else .error .overflow

theorem signed_of_lt {n : Int} (h : -signedLimit ≤ n) (h' : n < signedLimit) : signed n = .ok n :=
  if_pos ⟨h, h'⟩

theorem signed_natCast {n : Nat} (h : n < 0x8000000000000000) : signed n = .ok n :=
  signed_of_lt (by rw [signedLimit]; omega) (by rw [signedLimit]; omega)

theorem subSigned_natCast {a b : Nat} (ha : a < 0x8000000000000000) (hb : b < 0x8000000000000000) :
    subSigned a b = .ok (a - b) :=
  signed_of_lt (by rw [signedLimit]; omega) (by rw [signedLimit]; omega)

theorem addSigned_natCast {a : Nat} {b : Int} (ha : a < 0x4000000000000000)
    (hb : b.natAbs < 0x4000000000000000) : addSigned a b = .ok (a + b) :=
  signed_of_lt (by rw [signedLimit]; omega) (by rw [signedLimit]; omega)

theorem remSigned_of_pos {b : Int} (h : 0 < b) (a : Int) : remSigned a b = .ok (a % b) := by
  rw [remSigned, if_neg (by omega), if_neg (by omega)]

theorem unsigned_of_nonneg {n : Int} (h : 0 ≤ n) : unsigned n = .ok n.toNat := if_pos h

/-! ## Arrays -/

/-- What stands at a place. -/
def read (items : Array α) (i : Nat) : Guarded α :=
  match items[i]? with
  | some item => .ok item
  | none => .error .outOfRange

/-- The array with something else at a place. -/
def write (items : Array α) (i : Nat) (item : α) : Guarded (Array α) :=
  if i < items.size then .ok (items.setIfInBounds i item) else .error .outOfRange

/-- The array with two places exchanged. -/
def exchange (items : Array α) (i j : Nat) : Guarded (Array α) := do
  let a ← read items i
  let b ← read items j
  write (← write items i b) j a

theorem read_of_getElem? {items : Array α} {i : Nat} {item : α} (h : items[i]? = some item) :
    read items i = .ok item := by
  rw [read, h]

theorem write_of_lt {items : Array α} {i : Nat} (h : i < items.size) (item : α) :
    write items i item = .ok (items.setIfInBounds i item) := if_pos h

end Guarded

end TapeLife
