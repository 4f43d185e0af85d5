import Mathlib.Algebra.BigOperators.Group.List.Basic
import Mathlib.Data.List.Induction
import TapeLife.Census.Pass

/-!
# Proofs/Census/Counts — what the counters count

    all bytes = bytes of live tapes + 64 zeros for every blank tape

A counter of `ByteCounts.ofBytes` is the number of occurrences of its byte
(`ByteCounts.of_ofBytes`), so counts do not depend on the order of the bytes
(`ByteCounts.ofBytes_perm`).  A blank tape adds sixty-four zeros and nothing else
(`Cell.count_bytesOf_eq`), and one pass over the cells counts them all (`Pass.counts_foldl`).
-/

namespace TapeLife

namespace ByteCounts

variable {counts other : ByteCounts}

/-- The count of a byte. -/
def of (counts : ByteCounts) (byte : UInt8) : Nat := counts.get ⟨byte.toNat, byte.toNat_lt⟩

theorem of_eq_getElem (counts : ByteCounts) {byte : UInt8} (h : byte.toNat < 256) :
    counts.of byte = counts[byte.toNat] := rfl

theorem ext_of (h : ∀ byte, counts.of byte = other.of byte) : counts = other := by
  refine Vector.ext fun i hi => ?_
  have hbyte : (UInt8.ofNat i).toNat = i := UInt8.toNat_ofNat_of_lt' hi
  have hof := h (UInt8.ofNat i)
  rw [of_eq_getElem _ (UInt8.toNat_lt _), of_eq_getElem _ (UInt8.toNat_lt _)] at hof
  simpa only [hbyte] using hof

theorem of_add (counts : ByteCounts) (byte b : UInt8) :
    (counts.add byte).of b = counts.of b + if byte = b then 1 else 0 := by
  have hlt := b.toNat_lt
  rw [of_eq_getElem _ hlt, add, Vector.getElem_set]
  by_cases h : byte = b
  · subst h
    rw [if_pos rfl, if_pos rfl]
    rfl
  · rw [if_neg fun heq => h (UInt8.toNat_inj.mp heq), if_neg h]
    rfl

theorem of_foldl_add (bytes : List UInt8) (counts : ByteCounts) (b : UInt8) :
    (bytes.foldl add counts).of b = counts.of b + bytes.count b := by
  induction bytes generalizing counts with
  | nil => rfl
  | cons byte bytes ih =>
    rw [List.foldl_cons, ih, of_add, List.count_cons]
    simp only [beq_iff_eq]
    omega

/-- **A counter counts the occurrences of its byte.** -/
theorem of_ofBytes (bytes : List UInt8) (b : UInt8) : (ofBytes bytes).of b = bytes.count b := by
  rw [ofBytes, of_foldl_add, of_eq_getElem _ b.toNat_lt, Vector.getElem_replicate, Nat.zero_add]

/-- The order of bytes does not matter. -/
theorem ofBytes_perm {bytes bytes' : List UInt8} (h : bytes.Perm bytes') :
    ofBytes bytes = ofBytes bytes' :=
  ext_of fun b => by rw [of_ofBytes, of_ofBytes, h.count_eq]

theorem total_add (counts : ByteCounts) (byte : UInt8) :
    (counts.add byte).toList.foldl (· + ·) 0 = counts.toList.foldl (· + ·) 0 + 1 := by
  have hlt : byte.toNat < counts.toList.length := by simpa using byte.toNat_lt
  have hget : counts.get ⟨byte.toNat, byte.toNat_lt⟩ = counts.toList[byte.toNat] :=
    (Vector.getElem_toList hlt).symm
  have hsplit := List.sum_take_add_sum_drop counts.toList byte.toNat
  rw [List.drop_eq_getElem_cons hlt, List.sum_cons] at hsplit
  rw [← List.sum_eq_foldl, ← List.sum_eq_foldl, add, Vector.toList_set, List.sum_set, if_pos hlt,
    hget]
  omega

/-- **The counts of bytes add up to the number of bytes.** -/
theorem total_ofBytes (bytes : List UInt8) :
    (ofBytes bytes).toList.foldl (· + ·) 0 = bytes.length := by
  have hfold : ∀ counts : ByteCounts, (bytes.foldl add counts).toList.foldl (· + ·) 0
      = counts.toList.foldl (· + ·) 0 + bytes.length := by
    induction bytes with
    | nil => simp
    | cons byte bytes ih =>
      intro counts
      rw [List.foldl_cons, ih, total_add, List.length_cons]
      omega
  rw [ofBytes, hfold, Vector.toList_replicate, ← List.sum_eq_foldl, List.sum_replicate_nat,
    Nat.mul_zero, Nat.zero_add]

end ByteCounts

/-! ## Blank tapes and live ones -/

namespace Tape

theorem isBlank_iff {tape : Tape} : tape.isBlank = true ↔ tape = blank := by
  rw [isBlank, Vector.all_eq_true]
  refine ⟨fun h => Vector.ext fun i hi => ?_, fun h i hi => ?_⟩
  · simpa [blank] using h i hi
  · simp [h, blank]

end Tape

namespace Cell

variable (cells : List Cell)

/-- The bytes on the tapes of some cells. -/
def bytesOf : List UInt8 := cells.flatMap fun cell => cell.tape.toList

/-- The bytes on those tapes that are not blank. -/
def liveBytesOf : List UInt8 := bytesOf (cells.filter fun cell => !cell.isBlank)

theorem length_bytesOf : (bytesOf cells).length = tapeSize * cells.length := by
  simp [bytesOf, List.length_flatMap, Nat.mul_comm]

theorem length_liveBytesOf :
    (liveBytesOf cells).length = tapeSize * (cells.length - cells.countP isBlank) := by
  have hsplit := cells.length_eq_countP_add_countP isBlank
  rw [liveBytesOf, length_bytesOf, ← List.countP_eq_length_filter]
  simp only [Bool.not_eq_true, Bool.decide_eq_false] at hsplit
  rw [hsplit, Nat.add_sub_cancel_left]

/-- **Blank tapes hold zeros and nothing else**, sixty-four each. -/
theorem count_bytesOf_eq (b : UInt8) :
    (bytesOf cells).count b
      = (liveBytesOf cells).count b + if b = 0 then tapeSize * cells.countP isBlank else 0 := by
  induction cells with
  | nil => simp [bytesOf, liveBytesOf]
  | cons cell cells ih =>
    simp only [bytesOf, liveBytesOf, List.flatMap_cons, List.count_append, List.filter_cons,
      List.countP_cons] at ih ⊢
    by_cases hblank : cell.isBlank = true
    · have htape : cell.tape.toList.count b = if b = 0 then tapeSize else 0 := by
        rw [Tape.isBlank_iff.mp hblank, Tape.blank, Vector.toList_replicate, List.count_replicate,
          Bool.beq_comm]
        simp only [beq_iff_eq]
      rw [ih, htape, hblank]
      by_cases hb : b = 0
      · simp only [if_pos hb, if_true, Bool.not_true, if_neg Bool.false_ne_true, Nat.mul_succ]
        omega
      · simp only [if_neg hb, Bool.not_true, if_neg Bool.false_ne_true]
        omega
    · simp [hblank, ih, Nat.add_assoc]

end Cell

/-! ## One pass -/

namespace Pass

/-- The counters of a pass over some cells. -/
structure Counts (cells : List Cell) (pass : Pass) : Prop where
  counts : pass.counts = .ofBytes (Cell.bytesOf cells)
  emptyTapes : pass.emptyTapes = cells.countP Cell.isBlank
  liveBytes : pass.liveBytes = (Cell.liveBytesOf cells).length
  liveInstructions :
    pass.liveInstructions = (Cell.liveBytesOf cells).countP Instruction.isActive

theorem counts_start : Counts [] start := ⟨rfl, rfl, rfl, rfl⟩

/-- **One visit counts one cell more.** -/
theorem Counts.visit {cells : List Cell} {pass : Pass} (h : pass.Counts cells) (cell : Cell) :
    (pass.visit cell).Counts (cells ++ [cell]) := by
  obtain ⟨hcounts, hempty, hbytes, hinstructions⟩ := h
  have hfold : cell.tape.toList.foldl ByteCounts.add pass.counts
      = .ofBytes (Cell.bytesOf (cells ++ [cell])) := by
    rw [hcounts, ByteCounts.ofBytes, ByteCounts.ofBytes, Cell.bytesOf, Cell.bytesOf,
      List.flatMap_append, List.foldl_append, List.flatMap_singleton]
  have hlive : Cell.liveBytesOf (cells ++ [cell])
      = Cell.liveBytesOf cells ++ if cell.isBlank then [] else cell.tape.toList := by
    rw [Cell.liveBytesOf, Cell.liveBytesOf, Cell.bytesOf, Cell.bytesOf, List.filter_append,
      List.flatMap_append]
    cases hblank : cell.isBlank <;> simp [hblank]
  rw [Pass.visit, hfold]
  by_cases hblank : cell.isBlank = true
  · rw [if_pos hblank] at hlive ⊢
    refine ⟨rfl, ?_, ?_, ?_⟩
    · simp [hempty, hblank]
    · simp [hbytes, hlive]
    · simp [hinstructions, hlive]
  · rw [if_neg hblank] at hlive ⊢
    refine ⟨rfl, ?_, ?_, ?_⟩
    · simp [hempty, hblank]
    · simp [hbytes, hlive]
    · simp [hinstructions, hlive]

/-- **A pass over some cells counts these cells.** -/
theorem counts_foldl (cells : List Cell) : (cells.foldl visit start).Counts cells := by
  induction cells using List.reverseRecOn with
  | nil => exact counts_start
  | append_singleton cells cell ih =>
    rw [List.foldl_append]
    exact ih.visit cell

end Pass

end TapeLife
