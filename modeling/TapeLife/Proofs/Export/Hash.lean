import Mathlib.Logic.ExistsUnique
import TapeLife.Proofs.Export.Rows
import TapeLife.Proofs.Random.Mix

/-!
# Proofs/Export/Hash — a byte that differs is not lost on the way

    front ──▸ hash ──a──▸ hash₁ ──back──▸ hash₁'
                   ──b──▸ hash₂ ──back──▸ hash₂'        hash₁ ≠ hash₂, so hash₁' ≠ hash₂'

Folding a byte into a hash can be undone if the byte is known (`hashByte_injective`), and if the hash
is known it tells the byte (`byte_of_hashByte_eq`).  So hashes that differ stay different whatever
bytes follow (`hash64_append_inj`), and one byte that differs makes them different
(`hash64_ne_of_split`).
-/

namespace TapeLife

/-! ## One byte -/

/-- A byte that is folded in can be taken out again. -/
theorem hashByte_injective (byte : UInt8) : Function.Injective (hashByte · byte) := by
  intro hash hash' heq
  have hxor := @mul_left_injective_of_mul_eq_one _ 0xce965057aff6957b (by decide) _ _ heq
  exact (UInt64.xor_left_inj byte.toUInt64).mp hxor

/-- Different bytes lead to different hashes. -/
theorem byte_of_hashByte_eq {hash : UInt64} {a b : UInt8} (h : hashByte hash a = hashByte hash b) :
    a = b := by
  have hxor := @mul_left_injective_of_mul_eq_one _ 0xce965057aff6957b (by decide) _ _ h
  have hword := congrArg UInt64.toNat ((UInt64.xor_right_inj hash).mp hxor)
  exact UInt8.toNat_inj.mp (by simpa using hword)

/-! ## All bytes -/

/-- **Hashes that differ stay different** whatever is folded into both. -/
theorem foldl_hashByte_injective (bytes : List UInt8) :
    Function.Injective fun hash => bytes.foldl hashByte hash := by
  induction bytes with
  | nil => exact Function.injective_id
  | cons byte bytes ih => exact ih.comp (hashByte_injective byte)

theorem hash64_append (front back : List UInt8) :
    hash64 (front ++ back) = back.foldl hashByte (hash64 front) :=
  List.foldl_append

theorem hash64_append_inj {front front' : List UInt8} (back : List UInt8) :
    hash64 (front ++ back) = hash64 (front' ++ back) ↔ hash64 front = hash64 front' := by
  rw [hash64_append, hash64_append]
  exact (foldl_hashByte_injective back).eq_iff

/-- **One byte makes the difference**, wherever it stands. -/
theorem hash64_ne_of_split {a b : UInt8} (h : a ≠ b) (front back : List UInt8) :
    hash64 (front ++ a :: back) ≠ hash64 (front ++ b :: back) := by
  intro heq
  rw [List.append_cons, List.append_cons front b, hash64_append_inj, hash64_append,
    hash64_append] at heq
  exact h (byte_of_hashByte_eq heq)

/-- Lists of one length that differ in one place only are alike in front of it and behind it. -/
theorem exists_split_of_existsUnique {α : Type} {as bs : List α} (hlength : as.length = bs.length)
    (h : ∃! i : Nat, as[i]? ≠ bs[i]?) :
    ∃ front a b back, as = front ++ a :: back ∧ bs = front ++ b :: back ∧ a ≠ b := by
  obtain ⟨i, hi, hunique⟩ := h
  have halike : ∀ j, j ≠ i → as[j]? = bs[j]? := fun j hne =>
    Classical.byContradiction fun hdiffer => hne (hunique j hdiffer)
  have hia : i < as.length := by
    refine Classical.byContradiction fun hle => hi ?_
    rw [List.getElem?_eq_none (by omega), List.getElem?_eq_none (by omega)]
  have hib : i < bs.length := hlength ▸ hia
  have hfront : as.take i = bs.take i := List.ext_getElem? fun j => by
    rw [List.getElem?_take, List.getElem?_take]
    split
    · exact halike j (by omega)
    · rfl
  have hback : as.drop (i + 1) = bs.drop (i + 1) := List.ext_getElem? fun j => by
    rw [List.getElem?_drop, List.getElem?_drop]
    exact halike (i + 1 + j) (by omega)
  refine ⟨as.take i, as[i], bs[i], as.drop (i + 1), ?_, ?_, fun heq => hi ?_⟩
  · rw [← List.drop_eq_getElem_cons hia, List.take_append_drop]
  · rw [hfront, hback, ← List.drop_eq_getElem_cons hib, List.take_append_drop]
  · rw [List.getElem?_eq_getElem hia, List.getElem?_eq_getElem hib, heq]

/-- **A single byte is never lost on a hash**: bytes that differ in exactly one place have different
hashes, hashes that differ stay different whatever bytes follow, and so the rows of two cells whose
tapes differ in exactly one byte show different hashes. -/
theorem hash64_separates :
    (∀ as bs : List UInt8, as.length = bs.length → (∃! i : Nat, as[i]? ≠ bs[i]?) →
      hash64 as ≠ hash64 bs) ∧
    (∀ as bs suffix : List UInt8, hash64 as ≠ hash64 bs →
      hash64 (as ++ suffix) ≠ hash64 (bs ++ suffix)) ∧
    ∀ (options : TableOptions) (g h : Grid) (i j : Nat) (cell cell' : Cell),
      (∃! k : Nat, cell.tape.toList[k]? ≠ cell'.tape.toList[k]?) →
        (cellColumns options g i cell)[3]? ≠ (cellColumns options h j cell')[3]? := by
  have single {as bs : List UInt8} (hlength : as.length = bs.length)
      (hone : ∃! i : Nat, as[i]? ≠ bs[i]?) : hash64 as ≠ hash64 bs := by
    obtain ⟨front, a, b, back, rfl, rfl, hne⟩ := exists_split_of_existsUnique hlength hone
    exact hash64_ne_of_split hne front back
  refine ⟨fun as bs => single, fun as bs suffix hne heq => hne ((hash64_append_inj suffix).mp heq),
    fun options g h i j cell cell' hone heq => ?_⟩
  have hcolumn : ∀ (g : Grid) (i : Nat) (cell : Cell),
      (cellColumns options g i cell)[3]? = some (hexWord (hash64 cell.tape.toList)) :=
    fun g i cell => by simp [cellColumns]
  rw [hcolumn, hcolumn] at heq
  exact single (by simp) hone (hexWord_inj (Option.some.inj heq))

/-- A byte in the middle of three, the same before one more byte, and a byte on a blank tape. -/
theorem hash64_separates_middle :
    let cell := Cell.fresh ⟨1⟩
    let written := { cell with tape := cell.tape.set 5 43 }
    (([7, 0, 9] : List UInt8).length = [7, 255, 9].length ∧
        (∃! i : Nat, ([7, 0, 9] : List UInt8)[i]? ≠ [7, 255, 9][i]?) ∧
        ∃! k : Nat, cell.tape.toList[k]? ≠ written.tape.toList[k]?) ∧
      hash64 [7, 0, 9] ≠ hash64 [7, 255, 9] ∧
      hash64 ([7, 0, 9] ++ [1]) ≠ hash64 ([7, 255, 9] ++ [1]) ∧
      (cellColumns ⟨0, false⟩ Grid.square 0 cell)[3]?
        ≠ (cellColumns ⟨0, false⟩ Grid.square 0 written)[3]? := by
  have hone : ∃! i : Nat, ([7, 0, 9] : List UInt8)[i]? ≠ [7, 255, 9][i]? := by
    refine ⟨1, by decide, fun i hi => ?_⟩
    rcases i with _ | _ | _ | i
    · exact absurd rfl hi
    · rfl
    · exact absurd rfl hi
    · exact absurd rfl hi
  have htape : ∃! k : Nat, (Cell.fresh ⟨1⟩).tape.toList[k]?
      ≠ ((Cell.fresh ⟨1⟩).tape.set 5 43).toList[k]? := by
    refine ⟨5, by decide, fun k hk => Classical.byContradiction fun hne => hk ?_⟩
    rw [Vector.toList_set, List.getElem?_set_ne (Ne.symm hne)]
  have hmiddle := hash64_separates.1 [7, 0, 9] [7, 255, 9] rfl hone
  exact ⟨⟨rfl, hone, htape⟩, hmiddle, hash64_separates.2.1 _ _ [1] hmiddle,
    hash64_separates.2.2 _ _ _ _ _ _ _ htape⟩

end TapeLife
