import TapeLife.Proofs.Outcome
import TapeLife.Proofs.Saved.Header
import TapeLife.Saved.Soup

/-!
# Proofs/Saved/Soup — saved bytes and well-formed soups are the same thing

    soup ──save──▸ header ++ record ++ record ++ …  ──ofSaved──▸ soup

Every record is read exactly where it was written (`Cell.ofRecord_eq_ok`), and so is a soup: bytes
are loaded as a soup if and only if the soup is well-formed and they are what it is saved as
(`ofSaved_eq_ok_iff`).  So no two soups share their bytes, and no soup has two saved forms.
-/

namespace TapeLife

/-! ## Records -/

namespace Cell

@[simp] theorem length_record (cell : Cell) : cell.record.length = recordSize := by
  rw [record, List.length_append, List.length_cons, Vector.length_toList, length_littleEndian]
  rfl

theorem length_flatMap_record (cells : List Cell) :
    (cells.flatMap record).length = cells.length * recordSize := by
  induction cells with
  | nil => rfl
  | cons cell cells ih =>
    rw [List.flatMap_cons, List.length_append, length_record, ih, List.length_cons, Nat.succ_mul,
      Nat.add_comm]

/-- **A byte of a record stands at its place among all records.** -/
theorem getElem?_flatMap_record (cells : List Cell) (i : Nat) {k : Nat} (hk : k < recordSize) :
    (cells.flatMap record)[i * recordSize + k]? = cells[i]?.bind fun cell => cell.record[k]? := by
  induction cells generalizing i with
  | nil => rfl
  | cons cell cells ih =>
    rw [List.flatMap_cons]
    cases i with
    | zero =>
      rw [Nat.zero_mul, Nat.zero_add, List.getElem?_append_left (by rwa [length_record])]
      rfl
    | succ i =>
      have hplace : (i + 1) * recordSize + k
          = cell.record.length + (i * recordSize + k) := by
        rw [length_record, Nat.succ_mul, Nat.add_comm (i * recordSize), Nat.add_assoc]
      rw [hplace, List.getElem?_append_right (Nat.le_add_right ..), Nat.add_sub_cancel_left, ih]
      rfl

/-- **A record is read exactly if it was written.**  Every tape and every stream is; of the flags
only zero and one are. -/
theorem ofRecord_eq_ok {record : List UInt8} (hlen : record.length = recordSize) {cell : Cell} :
    ofRecord record = .ok cell ↔ record = cell.record := by
  obtain ⟨byte, body, rfl⟩ := List.exists_cons_of_length_eq_add_one (n := 72) hlen
  have hbody : body.length = tapeSize + 8 := Nat.succ.inj hlen
  have htape : (body.take tapeSize).length = tapeSize := by rw [List.length_take]; omega
  have hstate : (body.drop tapeSize).length = 8 := by rw [List.length_drop]; omega
  simp only [ofRecord, Except.bind_eq_ok_iff, Except.pure_eq_ok_iff, List.headD_cons,
    List.drop_one, List.tail_cons, flagOf_eq_ok]
  constructor
  · rintro ⟨locked, rfl, rfl⟩
    have hlt : ofLittleEndian (body.drop tapeSize) < UInt64.size := by
      have := ofLittleEndian_lt (body.drop tapeSize)
      rwa [hstate] at this
    rw [Cell.record, Tape.toList_ofBytes htape, UInt64.toNat_ofNat_of_lt' hlt, ← hstate,
      littleEndian_ofLittleEndian, List.cons_append, List.take_append_drop]
  · intro h
    rw [Cell.record, List.cons_append] at h
    obtain ⟨rfl, rfl⟩ := List.cons.inj h
    have hlist : cell.tape.toList.length = tapeSize := by simp
    refine ⟨cell.locked, rfl, ?_⟩
    rw [List.take_left' hlist, List.drop_left' hlist, Tape.ofBytes_toList, ofLittleEndian_wide,
      UInt64.ofNat_toNat]

/-- Where the bytes of one record more stand, there is a record and the others behind it. -/
theorem length_record_of_succ {count : Nat} {bytes : List UInt8}
    (hlen : bytes.length = (count + 1) * recordSize) :
    (bytes.take recordSize).length = recordSize ∧
      (bytes.drop recordSize).length = count * recordSize := by
  rw [List.length_take, List.length_drop, hlen, Nat.succ_mul]
  exact ⟨Nat.min_eq_left (Nat.le_add_left ..), Nat.add_sub_cancel ..⟩

/-- Records one after another are read exactly if they were written so. -/
theorem ofRecords_eq_ok {count : Nat} {bytes : List UInt8}
    (hlen : bytes.length = count * recordSize) {cells : List Cell} :
    ofRecords count bytes = .ok cells ↔ cells.length = count ∧ bytes = cells.flatMap record := by
  induction count generalizing bytes cells with
  | zero =>
    obtain rfl : bytes = [] := List.length_eq_zero_iff.mp (by omega)
    cases cells <;> simp [ofRecords]
  | succ count ih =>
    obtain ⟨hhead, htail⟩ := length_record_of_succ hlen
    simp only [ofRecords, Except.bind_eq_ok_iff, Except.pure_eq_ok_iff, ofRecord_eq_ok hhead,
      ih htail]
    constructor
    · rintro ⟨cell, hcell, cells, ⟨hcount, hcells⟩, rfl⟩
      refine ⟨by rw [List.length_cons, hcount], ?_⟩
      rw [List.flatMap_cons, ← hcell, ← hcells, List.take_append_drop]
    · rintro ⟨hcount, rfl⟩
      obtain ⟨cell, cells, rfl⟩ := List.exists_cons_of_length_eq_add_one hcount
      rw [List.flatMap_cons, List.take_left' cell.length_record, List.drop_left' cell.length_record]
      exact ⟨cell, rfl, cells, ⟨Nat.succ.inj hcount, rfl⟩, rfl⟩

end Cell

/-! ## Headers that can be loaded -/

namespace Header

theorem fault?_eq_none_iff {h : Header} :
    h.fault? = none ↔ h.width = h.params.width ∧ h.height = h.params.height ∧ h.params.Valid := by
  rw [fault?]
  split_ifs with hdim
  · refine ⟨nofun, ?_⟩
    rintro ⟨hw, hh, -⟩
    exact (hdim.elim (· hw) (· hh)).elim
  · rw [not_or, Decidable.not_not, Decidable.not_not] at hdim
    rw [Option.map_eq_none_iff, Params.fault?_eq_none_iff]
    exact ⟨fun hv => ⟨hdim.1, hdim.2, hv⟩, fun h => h.2.2⟩

/-- A header that can be loaded counts its cells twice, and alike. -/
theorem cells_eq {h : Header} (hf : h.fault? = none) :
    h.width.toNat * h.height.toNat = h.params.cellCount := by
  obtain ⟨hw, hh, -⟩ := fault?_eq_none_iff.mp hf
  rw [hw, hh]
  rfl

/-- Sixty-four bits count the bytes after every header that can be loaded. -/
theorem payloadSize?_eq_some {h : Header} (hf : h.fault? = none) :
    h.payloadSize? = some (h.params.cellCount * recordSize) := by
  obtain ⟨-, -, hv⟩ := fault?_eq_none_iff.mp hf
  have hle : h.params.cellCount ≤ 0x7fffffff := hv.cellCount_le
  have hlt : h.params.cellCount * recordSize < UInt64.size := by
    calc h.params.cellCount * recordSize ≤ 0x7fffffff * 73 := Nat.mul_le_mul_right 73 hle
      _ < UInt64.size := by decide
  simp only [payloadSize?, cells_eq hf, if_pos hlt]

end Header

/-! ## Soups -/

namespace Grid

variable {bytes : List UInt8} {g : Grid}

/-- The parts of saved bytes: a header that can be loaded, and a record for every cell. -/
theorem parts_eq_ok {header : Header} {cells : List Cell} :
    parts bytes = .ok (header, cells) ↔
      header.fault? = none ∧ cells.length = header.params.cellCount ∧
        bytes = header.encode ++ cells.flatMap Cell.record := by
  rw [parts, Except.bind_eq_ok_iff]
  constructor
  · rintro ⟨⟨header', payload⟩, hdecode, h⟩
    obtain rfl := Header.decode_eq_ok.mp hdecode
    rcases hf : header'.fault? with - | cause
    · simp only [hf, Header.payloadSize?_eq_some hf] at h
      split_ifs at h with hlen
      rw [ne_eq, Decidable.not_not] at hlen
      simp only [Header.cells_eq hf, Except.bind_eq_ok_iff, Except.pure_eq_ok_iff,
        Cell.ofRecords_eq_ok hlen, Prod.mk.injEq] at h
      obtain ⟨_, ⟨hcount, rfl⟩, rfl, rfl⟩ := h
      exact ⟨hf, hcount, rfl⟩
    · simp [hf] at h
  · rintro ⟨hf, hcount, rfl⟩
    have hlen := (Cell.length_flatMap_record cells).trans (congrArg (· * recordSize) hcount)
    refine ⟨(header, cells.flatMap Cell.record), Header.decode_eq_ok.mpr rfl, ?_⟩
    simp only [hf, Header.payloadSize?_eq_some hf, hlen, ne_eq, not_true_eq_false, if_false]
    rw [Header.cells_eq hf, (Cell.ofRecords_eq_ok hlen).mpr ⟨hcount, rfl⟩]
    rfl

/-- A soup of given cells is refused unless it is well-formed. -/
theorem assemble_eq_ok_iff {params : Params} {epoch : UInt32} {cells : Array Cell} :
    assemble params epoch cells = .ok g ↔ g.WellFormed ∧ g = ⟨params, epoch, cells⟩ := by
  rw [assemble]
  rcases hf : params.fault? with - | cause
  · have hv : params.Valid := (Params.fault?_eq_none_iff params).mp hf
    simp only
    split_ifs with hsize
    · refine ⟨nofun, ?_⟩
      rintro ⟨hg, rfl⟩
      exact absurd hg.size_cells hsize
    · rw [ne_eq, Decidable.not_not] at hsize
      constructor
      · intro h
        obtain rfl := Except.ok.inj h
        exact ⟨⟨hv, hsize⟩, rfl⟩
      · rintro ⟨-, rfl⟩
        rfl
  · refine ⟨nofun, ?_⟩
    rintro ⟨hg, rfl⟩
    rw [(Params.fault?_eq_none_iff params).mpr hg.valid] at hf
    exact absurd hf nofun

/-- **A byte of a record stands at its place in the bytes of a soup.** -/
theorem getElem?_save (g : Grid) (i : Nat) {k : Nat} (hk : k < recordSize) :
    g.save[47 + i * recordSize + k]? = g.cells[i]?.bind fun cell => cell.record[k]? := by
  have hlen : g.header.encode.length = 47 := rfl
  rw [save, Nat.add_assoc, ← hlen, List.getElem?_append_right (Nat.le_add_right ..),
    Nat.add_sub_cancel_left, ← Array.getElem?_toList]
  exact Cell.getElem?_flatMap_record _ i hk

theorem WellFormed.fault?_header (hg : g.WellFormed) : g.header.fault? = none :=
  Header.fault?_eq_none_iff.mpr ⟨rfl, rfl, hg.valid⟩

/-- What a well-formed soup is saved as is loaded as this soup. -/
theorem ofSaved_save (hg : g.WellFormed) : ofSaved g.save = .ok g := by
  have hparts : parts g.save = .ok (g.header, g.cells.toList) :=
    parts_eq_ok.mpr ⟨hg.fault?_header, hg.size_cells, rfl⟩
  simp only [ofSaved, hparts, Array.toArray_toList]
  exact assemble_eq_ok_iff.mpr ⟨hg, rfl⟩

/-- What is loaded as a soup is what this soup is saved as. -/
theorem save_of_ofSaved_eq_ok (h : ofSaved bytes = .ok g) : g.WellFormed ∧ g.save = bytes := by
  rcases hparts : parts bytes with cause | ⟨header, cells⟩
  · simp [ofSaved, hparts] at h
  · simp only [ofSaved, hparts] at h
    obtain ⟨hf, -, rfl⟩ := parts_eq_ok.mp hparts
    obtain ⟨hg, rfl⟩ := assemble_eq_ok_iff.mp h
    obtain ⟨hw, hh, -⟩ := Header.fault?_eq_none_iff.mp hf
    have hheader : header
        = ⟨header.params.width, header.params.height, header.epoch, header.params⟩ := by
      rw [← hw, ← hh]
    refine ⟨hg, ?_⟩
    rw [save, Grid.header, ← hheader, List.toList_toArray]

/-- **Saved bytes and well-formed soups are the same thing.**  Bytes are loaded as a soup if and
only if the soup is well-formed and saved as these bytes.  So saving loses nothing (a rate of minus
zero is told from zero by its bytes), and no second way to write a soup is read. -/
theorem ofSaved_eq_ok_iff : ofSaved bytes = .ok g ↔ g.WellFormed ∧ g.save = bytes := by
  constructor
  · exact save_of_ofSaved_eq_ok
  · rintro ⟨hg, rfl⟩
    exact ofSaved_save hg

/-- Minus zero is a rate that a soup may have, and not the same bytes as zero. -/
example : Single.isFraction ⟨0x80000000⟩ = true ∧ (⟨0x80000000⟩ : Single) ≠ ⟨0⟩ := by decide

/-- **A file replaces the whole soup, or nothing of it.** -/
theorem loadFrom_cases (g : Grid) (tree : FileTree) (path : Path) :
    (∃ bytes loaded, tree.read path = .ok bytes ∧ ofSaved bytes = .ok loaded ∧
      g.loadFrom tree path = (loaded, none)) ∨
    (∃ cause, g.loadFrom tree path = (g, some cause)) ∧
      ¬ ∃ bytes loaded, tree.read path = .ok bytes ∧ ofSaved bytes = .ok loaded := by
  rcases hread : tree.read path with cause | bytes
  · exact .inr ⟨⟨.file cause, by rw [loadFrom, hread]⟩, by simp⟩
  rcases hsaved : ofSaved bytes with cause | loaded
  · exact .inr ⟨⟨cause, by simp only [loadFrom, hread, load, hsaved]⟩, by simp [hsaved]⟩
  · exact .inl ⟨bytes, loaded, rfl, hsaved, by simp only [loadFrom, hread, load, hsaved]⟩

end Grid

end TapeLife
