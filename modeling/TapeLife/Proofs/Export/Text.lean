import TapeLife.Export.Rows

/-!
# Proofs/Export/Text — reading a table back

    columns ──","──▸ row ──"\n"──▸ text        text ──▸ rows ──▸ columns

What stands in a column has neither a comma nor an end of line in it (`IsPlain`), so a text falls
into its rows and a row into its columns (`rowsOf_join`, `columnsOf_intercalate`).  Digits tell the
number that they stand for, padded or not, and two for every byte tell the bytes.
-/

namespace TapeLife

/-! ## Rows and columns -/

/-- A text without a comma and without an end of line. -/
def IsPlain (s : String) : Prop := ',' ∉ s.toList ∧ '\n' ∉ s.toList

/-- The columns of a row. -/
def columnsOf (row : String) : List String := (row.toList.splitOn ',').map String.ofList

/-- The rows of a text. -/
def rowsOf (text : String) : List String := (text.toList.splitOn '\n').dropLast.map String.ofList

theorem columnsOf_intercalate {columns : List String} (hne : columns ≠ [])
    (h : ∀ column ∈ columns, IsPlain column) : columnsOf (",".intercalate columns) = columns := by
  have hsplit : ((",".intercalate columns).toList).splitOn ',' = columns.map String.toList := by
    rw [String.toList_intercalate]
    refine List.splitOn_intercalate ',' (fun l hl => ?_) (by simpa using hne)
    obtain ⟨column, hcolumn, rfl⟩ := List.mem_map.mp hl
    exact (h column hcolumn).1
  rw [columnsOf, hsplit, List.map_map]
  exact List.map_id'' (fun _ => String.ofList_toList) columns

theorem newline_notMem_intercalate {columns : List String}
    (h : ∀ column ∈ columns, IsPlain column) : '\n' ∉ (",".intercalate columns).toList := by
  induction columns with
  | nil => simp
  | cons column columns ih =>
    obtain ⟨hcolumn, hrest⟩ := List.forall_mem_cons.mp h
    cases columns with
    | nil => simpa using hcolumn.2
    | cons next columns =>
      rw [String.intercalate_cons_cons, String.toList_append, String.toList_append]
      simp only [List.mem_append, not_or]
      exact ⟨⟨hcolumn.2, by decide⟩, ih hrest⟩

/-- Pieces that all end alike, as pieces with an end between them and nothing after the last. -/
theorem intercalate_concat_nil {α : Type} (x : α) (pieces : List (List α)) :
    [x].intercalate (pieces ++ [[]]) = pieces.flatMap (· ++ [x]) := by
  induction pieces with
  | nil => simp
  | cons piece pieces ih =>
    rw [List.cons_append, List.intercalate_cons_of_ne_nil (by simp), ih, List.flatMap_cons]

theorem rowsOf_join {rows : List String} (h : ∀ row ∈ rows, '\n' ∉ row.toList) :
    rowsOf (String.join (rows.map (· ++ "\n"))) = rows := by
  have htext : (String.join (rows.map (· ++ "\n"))).toList
      = ['\n'].intercalate (rows.map String.toList ++ [[]]) := by
    rw [intercalate_concat_nil, String.toList_join, List.flatMap_map, List.flatMap_map]
    simp only [String.toList_append]
    rfl
  have hsplit : (String.join (rows.map (· ++ "\n"))).toList.splitOn '\n'
      = rows.map String.toList ++ [[]] := by
    rw [htext]
    refine List.splitOn_intercalate '\n' (fun l hl => ?_) (by simp)
    obtain hrow | hlast := List.mem_append.mp hl
    · obtain ⟨row, hmem, rfl⟩ := List.mem_map.mp hrow
      exact h row hmem
    · simp [List.mem_singleton.mp hlast]
  rw [rowsOf, hsplit, List.dropLast_concat, List.map_map]
  exact List.map_id'' (fun _ => String.ofList_toList) rows

/-! ## Digits -/

/-- The digit of a character. -/
def digitOf (c : Char) : Nat := if c.isDigit then c.toNat - 48 else c.toNat - 87

/-- The number that digits stand for. -/
def valueOf (base : Nat) (ds : List Char) : Nat := ds.foldl (fun n c => base * n + digitOf c) 0

theorem digitOf_digitChar {i : Nat} (hi : i < 16) : digitOf (Nat.digitChar i) = i := by
  have hall : ∀ a : Fin 16, digitOf (Nat.digitChar a) = a := by decide
  exact hall ⟨i, hi⟩

theorem digitChar_inj {i j : Nat} (hi : i < 16) (hj : j < 16)
    (h : Nat.digitChar i = Nat.digitChar j) : i = j := by
  rw [← digitOf_digitChar hi, h, digitOf_digitChar hj]

/-- Digits are neither commas nor ends of line. -/
theorem digitChar_plain {i : Nat} (hi : i < 16) :
    Nat.digitChar i ≠ ',' ∧ Nat.digitChar i ≠ '\n' := by
  have hall : ∀ a : Fin 16, Nat.digitChar a ≠ ',' ∧ Nat.digitChar a ≠ '\n' := by decide
  exact hall ⟨i, hi⟩

theorem isPlain_of_digits {s : String} (h : ∀ c ∈ s.toList, ∃ i < 16, c = Nat.digitChar i) :
    IsPlain s := by
  have hne : ∀ c ∈ s.toList, c ≠ ',' ∧ c ≠ '\n' := fun c hc => by
    obtain ⟨i, hi, rfl⟩ := h c hc
    exact digitChar_plain hi
  exact ⟨fun hc => (hne _ hc).1 rfl, fun hc => (hne _ hc).2 rfl⟩

section

variable {base : Nat} (hone : 1 < base) (hbase : base ≤ 16)
include hone hbase

theorem mem_toDigits (n : Nat) : ∀ c ∈ Nat.toDigits base n, ∃ i < 16, c = Nat.digitChar i := by
  induction n using Nat.strongRecOn with
  | ind n ih =>
    have hmod : n % base < 16 :=
      Nat.lt_of_lt_of_le (Nat.mod_lt n (Nat.lt_of_succ_lt hone)) hbase
    rw [Nat.toDigits_eq_if hone]
    split
    · exact fun c hc => ⟨n, by omega, List.mem_singleton.mp hc⟩
    · intro c hc
      obtain hfront | hlast := List.mem_append.mp hc
      · exact ih (n / base) (Nat.div_lt_self (by omega) hone) c hfront
      · exact ⟨n % base, hmod, List.mem_singleton.mp hlast⟩

/-- **Digits stand for the number that they were made from.** -/
theorem valueOf_toDigits (n : Nat) : valueOf base (Nat.toDigits base n) = n := by
  induction n using Nat.strongRecOn with
  | ind n ih =>
    have hmod : n % base < 16 :=
      Nat.lt_of_lt_of_le (Nat.mod_lt n (Nat.lt_of_succ_lt hone)) hbase
    rw [Nat.toDigits_eq_if hone]
    split
    · rw [valueOf, List.foldl_cons, List.foldl_nil, digitOf_digitChar (by omega)]
      omega
    · have hfront : (Nat.toDigits base (n / base)).foldl (fun n c => base * n + digitOf c) 0
          = n / base := ih (n / base) (Nat.div_lt_self (by omega) hone)
      rw [valueOf, List.foldl_append, hfront, List.foldl_cons, List.foldl_nil,
        digitOf_digitChar hmod, Nat.div_add_mod]

end

theorem valueOf_replicate (base k : Nat) (ds : List Char) :
    valueOf base (List.replicate k '0' ++ ds) = valueOf base ds := by
  induction k with
  | zero => rfl
  | succ k ih => exact ih

/-! ## What stands in the columns -/

theorem isPlain_decimalText (n : Nat) : IsPlain (decimalText n) :=
  isPlain_of_digits (by
    rw [decimalText, String.toList_ofList]
    exact mem_toDigits (by decide) (by decide) n)

theorem decimalText_inj {m n : Nat} (h : decimalText m = decimalText n) : m = n := by
  have hdigits : Nat.toDigits 10 m = Nat.toDigits 10 n := String.ofList_injective h
  rw [← @valueOf_toDigits 10 (by decide) (by decide) m, hdigits,
    valueOf_toDigits (by decide) (by decide)]

theorem isPlain_hexWord (w : UInt64) : IsPlain (hexWord w) :=
  isPlain_of_digits (by
    rw [hexWord, String.toList_ofList]
    intro c hc
    obtain hzero | hdigit := List.mem_append.mp hc
    · exact ⟨0, by decide, List.eq_of_mem_replicate hzero⟩
    · exact mem_toDigits (by decide) (by decide) _ c hdigit)

/-- **Sixteen digits tell a word.** -/
theorem hexWord_inj {v w : UInt64} (h : hexWord v = hexWord w) : v = w := by
  have hvalue := congrArg (fun s => valueOf 16 s.toList) h
  simp only [hexWord, String.toList_ofList, valueOf_replicate,
    valueOf_toDigits (show 1 < 16 by decide) (Nat.le_refl 16)] at hvalue
  exact UInt64.toNat_inj.mp hvalue

theorem isPlain_flagText (b : Bool) : IsPlain (flagText b) := by
  cases b <;> exact ⟨by decide, by decide⟩

theorem flagText_inj {a b : Bool} (h : flagText a = flagText b) : a = b := by
  cases a <;> cases b <;> first | rfl | exact absurd h (by decide)

theorem isPlain_hexBytes (bytes : List UInt8) : IsPlain (hexBytes bytes) :=
  isPlain_of_digits (by
    rw [hexBytes, String.toList_ofList]
    intro c hc
    obtain ⟨byte, -, hbyte⟩ := List.mem_flatMap.mp hc
    have hlt := byte.toNat_lt
    simp only [hexByte, List.mem_cons, List.not_mem_nil, or_false] at hbyte
    obtain rfl | rfl := hbyte
    · exact ⟨_, by omega, rfl⟩
    · exact ⟨_, by omega, rfl⟩)

theorem hexByte_inj {a b : UInt8} (h : hexByte a = hexByte b) : a = b := by
  have ha := a.toNat_lt
  have hb := b.toNat_lt
  simp only [hexByte, List.cons.injEq, and_true] at h
  have hhigh := digitChar_inj (by omega) (by omega) h.1
  have hlow := digitChar_inj (by omega) (by omega) h.2
  exact UInt8.toNat_inj.mp (by omega)

/-- **Two digits for every byte tell the bytes.** -/
theorem hexBytes_inj {bytes bytes' : List UInt8} (h : hexBytes bytes = hexBytes bytes') :
    bytes = bytes' := by
  replace h := String.ofList_injective h
  induction bytes generalizing bytes' with
  | nil => cases bytes' <;> simp_all [hexByte]
  | cons byte bytes ih =>
    cases bytes' with
    | nil => simp [hexByte] at h
    | cons byte' bytes' =>
      rw [List.flatMap_cons, List.flatMap_cons] at h
      obtain ⟨hbyte, hrest⟩ := List.append_inj h rfl
      rw [hexByte_inj hbyte, ih hrest]

/-- The digits of the first bytes are the first digits. -/
theorem hexBytes_take (bytes : List UInt8) (n : Nat) :
    (hexBytes (bytes.take n)).toList = (hexBytes bytes).toList.take (2 * n) := by
  simp only [hexBytes, String.toList_ofList]
  induction bytes generalizing n with
  | nil => simp
  | cons byte bytes ih =>
    cases n with
    | zero => simp
    | succ n => simp [hexByte, ih, Nat.mul_succ]

end TapeLife
