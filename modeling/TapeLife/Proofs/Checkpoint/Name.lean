import TapeLife.Checkpoint.Name
import TapeLife.Proofs.Files.Path

/-!
# Proofs/Checkpoint/Name — a name tells its epoch

Reading the name of a checkpoint gives the epoch that it was written for
(`checkpointEpoch?_checkpointName`), so different epochs have different names.  A name is one step
of a path, and short enough for every directory.
-/

namespace TapeLife

/-! ## Digits -/

theorem isDecimalDigit_of_mem_digits {n : Nat} {c : Char} (hc : c ∈ digits n) :
    isDecimalDigit c = true := by
  have hdigit : c.isDigit = true := Nat.isDigit_of_mem_toDigits (by decide) (by decide) hc
  simpa [isDecimalDigit, Char.isDigit, Char.le_def] using hdigit

/-- Digits start with no other mark. -/
theorem digits_ne_cons {mark : Char} (hmark : isDecimalDigit mark = false) (n : Nat)
    (cs : List Char) : digits n ≠ mark :: cs := fun h => by
  have hdigit := @isDecimalDigit_of_mem_digits n mark (h ▸ List.mem_cons_self)
  exact absurd (hdigit.symm.trans hmark) (by decide)

theorem readDigits?_digits (n : Nat) : readDigits? (digits n) = some n := by
  have hall : (digits n).all isDecimalDigit = true :=
    List.all_eq_true.mpr fun c hc => isDecimalDigit_of_mem_digits hc
  rw [readDigits?, if_pos ⟨Nat.toDigits_ne_nil, hall⟩]
  exact congrArg some Nat.ofDigitChars_ten_toDigits

/-- **A number is read back from its digits.** -/
theorem readNatural?_digits (n : Nat) : readNatural? (digits n) = some n := by
  rw [readNatural?]
  · exact readDigits?_digits n
  · exact digits_ne_cons (by decide) n

/-! ## Names -/

theorem toList_checkpointName (epoch : UInt32) : (checkpointName epoch).toList
    = checkpointStem.toList ++ (digits epoch.toNat ++ checkpointEnding.toList) := by
  simp [checkpointName, decimalText]

theorem dropStart?_append (start rest : List Char) :
    dropStart? start (start ++ rest) = some rest := by
  rw [dropStart?, if_pos (List.isPrefixOf_iff_prefix.mpr (List.prefix_append _ _)),
    List.drop_left]

theorem dropEnd?_append (stop front : List Char) : dropEnd? stop (front ++ stop) = some front := by
  rw [dropEnd?, if_pos (List.isSuffixOf_iff_suffix.mpr (List.suffix_append _ _)),
    List.length_append, Nat.add_sub_cancel, List.take_left]

/-- **A name tells its epoch.** -/
theorem checkpointEpoch?_checkpointName (epoch : UInt32) :
    checkpointEpoch? (checkpointName epoch) = some epoch := by
  simp only [checkpointEpoch?, toList_checkpointName, dropStart?_append, dropEnd?_append,
    readNatural?_digits, Option.bind_eq_bind, Option.bind_some, epoch.toNat_lt, if_pos,
    UInt32.ofNat_toNat]

theorem checkpointName_inj {e e' : UInt32} : checkpointName e = checkpointName e' ↔ e = e' := by
  refine ⟨fun h => ?_, congrArg checkpointName⟩
  have hread := congrArg checkpointEpoch? h
  simpa [checkpointEpoch?_checkpointName] using hread

/-- The letters of a name. -/
theorem mem_checkpointName {epoch : UInt32} {c : Char} (hc : c ∈ (checkpointName epoch).toList) :
    isDecimalDigit c = true ∨ c ∈ (checkpointStem ++ checkpointEnding).toList := by
  rw [toList_checkpointName, List.mem_append, List.mem_append] at hc
  rw [String.toList_append, List.mem_append]
  obtain h | h | h := hc
  · exact .inr (.inl h)
  · exact .inl (isDecimalDigit_of_mem_digits h)
  · exact .inr (.inr h)

/-- A name is one step of a path. -/
theorem isStep_checkpointName (epoch : UInt32) : Path.IsStep (checkpointName epoch) where
  ne_empty h := by
    have htext := (toList_checkpointName epoch).symm.trans (congrArg String.toList h)
    simp [checkpointStem] at htext
  slash_notMem h := by
    obtain h | h := mem_checkpointName h
    · exact absurd h (by decide)
    · exact absurd h (by decide)

theorem nul_notMem_checkpointName (epoch : UInt32) : '\x00' ∉ (checkpointName epoch).toList := by
  intro h
  obtain h | h := mem_checkpointName h
  · exact absurd h (by decide)
  · exact absurd h (by decide)

/-- A name neither stays nor goes up, nor does it start at the root. -/
theorem checkpointName_ne {epoch : UInt32} {name : String} (hname : name.toList.head? ≠ some 'c') :
    checkpointName epoch ≠ name := by
  rintro rfl
  rw [toList_checkpointName] at hname
  exact hname rfl

theorem utf8ByteSize_ofList_le (cs : List Char) :
    (String.ofList cs).utf8ByteSize ≤ 4 * cs.length := by
  induction cs with
  | nil => simp
  | cons c cs ih =>
    have hc := c.utf8Size_le_four
    rw [← List.singleton_append, String.ofList_append, String.utf8ByteSize_append,
      ← String.singleton_eq_ofList, String.utf8ByteSize_singleton, List.length_append,
      List.length_singleton]
    omega

/-- No name is too long for a directory. -/
theorem utf8ByteSize_checkpointName_le (epoch : UInt32) :
    (checkpointName epoch).utf8ByteSize ≤ FileTree.maxNameSize := by
  have hlength : (digits epoch.toNat).length ≤ 10 :=
    (Nat.length_toDigits_le_iff (by decide) (by decide)).mpr
      (Nat.lt_trans epoch.toNat_lt (by decide))
  have hsize := utf8ByteSize_ofList_le (digits epoch.toNat)
  have hstem : checkpointStem.utf8ByteSize = 17 := by decide
  have hending : checkpointEnding.utf8ByteSize = 5 := by decide
  rw [checkpointName, decimalText, String.utf8ByteSize_append, String.utf8ByteSize_append, hstem,
    hending, FileTree.maxNameSize]
  omega

/-! ## The order of listings -/

theorem listedBefore_iff {a b : UInt32 × Path} :
    listedBefore a b = true ↔ a.1 < b.1 ∨ a.1 = b.1 ∧ a.2 ≤ b.2 := by
  simp [listedBefore]

theorem listedBefore_trans {a b c : UInt32 × Path} (hab : listedBefore a b = true)
    (hbc : listedBefore b c = true) : listedBefore a c = true := by
  rw [listedBefore_iff] at *
  obtain hab | ⟨hab, hab'⟩ := hab
  · obtain hbc | ⟨hbc, -⟩ := hbc
    · exact .inl (UInt32.lt_trans hab hbc)
    · exact .inl (hbc ▸ hab)
  · obtain hbc | ⟨hbc, hbc'⟩ := hbc
    · exact .inl (hab ▸ hbc)
    · exact .inr ⟨hab.trans hbc, String.le_trans hab' hbc'⟩

theorem listedBefore_total (a b : UInt32 × Path) :
    (listedBefore a b || listedBefore b a) = true := by
  rw [Bool.or_eq_true, listedBefore_iff, listedBefore_iff]
  by_cases hlt : a.1 < b.1
  · exact .inl (.inl hlt)
  by_cases heq : a.1 = b.1
  · obtain h | h := String.le_total a.2 b.2
    · exact .inl (.inr ⟨heq, h⟩)
    · exact .inr (.inr ⟨heq.symm, h⟩)
  · exact .inr (.inl (UInt32.lt_of_le_of_ne (UInt32.not_lt.mp hlt) (Ne.symm heq)))

theorem eq_of_listedBefore {a b : UInt32 × Path} (hab : listedBefore a b = true)
    (hba : listedBefore b a = true) : a = b := by
  rw [listedBefore_iff] at hab hba
  obtain hab | ⟨hepoch, hab⟩ := hab
  · obtain hba | ⟨hba, -⟩ := hba
    · exact absurd hba (UInt32.lt_asymm hab)
    · exact absurd (hba ▸ hab) (UInt32.lt_irrefl _)
  · obtain hba | ⟨-, hba⟩ := hba
    · exact absurd (hepoch ▸ hba) (UInt32.lt_irrefl _)
    · exact Prod.ext hepoch (String.le_antisymm hab hba)

/-- **A sorted listing is in order.** -/
theorem pairwise_mergeSort_listedBefore (found : List (UInt32 × Path)) :
    (found.mergeSort listedBefore).Pairwise (listedBefore · ·) :=
  @List.pairwise_mergeSort _ listedBefore (fun _ _ _ => listedBefore_trans) listedBefore_total found

/-- **A listing ends with the checkpoint that no other is listed behind.** -/
theorem getLast?_mergeSort_listedBefore {found : List (UInt32 × Path)} {latest : UInt32 × Path}
    (hmem : latest ∈ found) (hlatest : ∀ other ∈ found, listedBefore other latest = true) :
    (found.mergeSort listedBefore).getLast? = some latest := by
  have hsorted := pairwise_mergeSort_listedBefore found
  have hmem' : latest ∈ found.mergeSort listedBefore := List.mem_mergeSort.mpr hmem
  obtain ⟨front, last, hlist⟩ : ∃ front last, found.mergeSort listedBefore = front ++ [last] :=
    ⟨_, _, (List.dropLast_concat_getLast (List.ne_nil_of_mem hmem')).symm⟩
  rw [hlist] at hsorted hmem'
  rw [hlist, List.getLast?_concat]
  obtain h | h := List.mem_append.mp hmem'
  · have hlast : last ∈ found := List.mem_mergeSort.mp (hlist ▸ List.mem_concat_self)
    have hbefore := (List.pairwise_append.mp hsorted).2.2 latest h last (List.mem_singleton_self _)
    exact congrArg some (eq_of_listedBefore (hlatest last hlast) hbefore)
  · rw [List.mem_singleton.mp h]

end TapeLife
