import Mathlib.Data.List.Infix
import TapeLife.Proofs.Grid.Matching
import TapeLife.Proofs.Saved.Soup
import TapeLife.Saved.Layout

/-!
# Proofs/Saved/Layout — what is loaded is what is laid out as a saved soup

Fields that follow each other from place to place add up to the bytes
(`littleEndian_numberAt_append`), so the reader that takes one field after another finds what stands
at the places of the format: `Header.decode_eq_ok_iff_leads` for the header,
`Cell.exists_ofRecords_iff` for the records, `Grid.exists_parts_iff` for both.  Loading succeeds on
a `Layout` and on nothing else, and a soup that is not replaced stays what it was
(`Grid.load_succeeds_iff_layout`).
-/

namespace TapeLife

variable {bytes : List UInt8}

/-! ## Fields at their places -/

theorem numberAt_lt {place k : Nat} (h : place + k ≤ bytes.length) :
    numberAt bytes place k < Nat.pow 256 k := by
  have hlen : ((bytes.drop place).take k).length = k := by
    rw [List.length_take, List.length_drop]; omega
  have hlt := ofLittleEndian_lt ((bytes.drop place).take k)
  rwa [hlen] at hlt

/-- **A number written back at its place leads on to the place after it.** -/
theorem littleEndian_numberAt_append {place k : Nat} (h : place + k ≤ bytes.length) :
    littleEndian k (numberAt bytes place k) ++ bytes.drop (place + k) = bytes.drop place := by
  have hlen : ((bytes.drop place).take k).length = k := by
    rw [List.length_take, List.length_drop]; omega
  have hwrite := littleEndian_ofLittleEndian ((bytes.drop place).take k)
  rw [hlen] at hwrite
  rw [numberAt, hwrite, ← List.drop_drop, List.take_append_drop]

theorem word_numberAt_append {place : Nat} (h : place + 4 ≤ bytes.length) :
    littleEndian 4 (UInt32.ofNat (numberAt bytes place 4)).toNat ++ bytes.drop (place + 4)
      = bytes.drop place := by
  rw [UInt32.toNat_ofNat_of_lt' (numberAt_lt h), littleEndian_numberAt_append h]

theorem wide_numberAt_append {place : Nat} (h : place + 8 ≤ bytes.length) :
    littleEndian 8 (UInt64.ofNat (numberAt bytes place 8)).toNat ++ bytes.drop (place + 8)
      = bytes.drop place := by
  rw [UInt64.toNat_ofNat_of_lt' (numberAt_lt h), littleEndian_numberAt_append h]

theorem hasFlagAt_iff {place : Nat} :
    HasFlagAt bytes place ↔ ∃ flag, bytes[place]? = some (flagByte flag) := by
  constructor
  · rintro (h | h)
    exacts [⟨false, h⟩, ⟨true, h⟩]
  · rintro ⟨_ | _, h⟩
    exacts [.inl h, .inr h]

theorem flag_append {place : Nat} (h : HasFlagAt bytes place) :
    flagByte (bytes[place]? == some 1) :: bytes.drop (place + 1) = bytes.drop place := by
  obtain ⟨flag, hflag⟩ := hasFlagAt_iff.mp h
  obtain ⟨hlt, hget⟩ := List.getElem?_eq_some_iff.mp hflag
  have hread : (bytes[place]? == some 1) = flag := by rw [hflag]; cases flag <;> decide
  rw [hread, ← hget, List.getElem_cons_drop]

/-! ## Headers -/

namespace Header

/-- **The fields at their places are the front of the bytes.** -/
theorem encode_ofPlaces_append (h : Leads bytes) :
    (ofPlaces bytes).encode ++ bytes.drop 47 = bytes := by
  have hlen := h.length_le
  have hmagic : magic ++ bytes.drop 4 = bytes := by
    have hmarks : bytes.take 4 = magic := h.magic
    rw [← hmarks, List.take_append_drop]
  have hversion : littleEndian 2 version ++ bytes.drop 6 = bytes.drop 4 := by
    have hplace : littleEndian 2 (numberAt bytes 4 2) ++ bytes.drop 6 = bytes.drop 4 :=
      littleEndian_numberAt_append (by omega)
    rwa [h.version] at hplace
  simp only [encode, encodeParams, ofPlaces, List.append_assoc, List.cons_append, List.nil_append]
  rw [word_numberAt_append (by omega), word_numberAt_append (by omega),
    word_numberAt_append (by omega), word_numberAt_append (by omega),
    word_numberAt_append (by omega), flag_append h.fixedShuffle, wide_numberAt_append (by omega),
    word_numberAt_append (by omega), word_numberAt_append (by omega),
    word_numberAt_append (by omega), hversion, hmagic]

/-- What is encoded stands at the places of the format. -/
theorem ofPlaces_encode_append (h : Header) (rest : List UInt8) :
    ofPlaces (h.encode ++ rest) = h := by
  have hflag : (some (flagByte h.params.fixedShuffle) == some 1) = h.params.fixedShuffle := by
    cases h.params.fixedShuffle <;> rfl
  -- Every field is as long as it is whatever its number, so its place is found by evaluation.
  have hplaces : ofPlaces (h.encode ++ rest)
      = { width := UInt32.ofNat (ofLittleEndian (littleEndian 4 h.width.toNat))
          height := UInt32.ofNat (ofLittleEndian (littleEndian 4 h.height.toNat))
          epoch := UInt32.ofNat (ofLittleEndian (littleEndian 4 h.epoch.toNat))
          params :=
            { seed := UInt64.ofNat (ofLittleEndian (littleEndian 8 h.params.seed.toNat))
              fixedShuffle := some (flagByte h.params.fixedShuffle) == some 1
              maxSteps := UInt32.ofNat (ofLittleEndian (littleEndian 4 h.params.maxSteps.toNat))
              maxDist := UInt32.ofNat (ofLittleEndian (littleEndian 4 h.params.maxDist.toNat))
              rate := ⟨UInt32.ofNat (ofLittleEndian (littleEndian 4 h.params.rate.bits.toNat))⟩
              width := UInt32.ofNat (ofLittleEndian (littleEndian 4 h.params.width.toNat))
              height := UInt32.ofNat (ofLittleEndian (littleEndian 4 h.params.height.toNat)) } } :=
    rfl
  rw [hplaces, hflag]
  simp only [ofLittleEndian_word, ofLittleEndian_wide, UInt32.ofNat_toNat, UInt64.ofNat_toNat]

theorem leads_encode_append (h : Header) (rest : List UInt8) : Leads (h.encode ++ rest) where
  length_le := by
    have : h.encode.length = 47 := rfl
    rw [List.length_append, this]
    exact Nat.le_add_right 47 _
  magic := rfl
  version := rfl
  fixedShuffle := hasFlagAt_iff.mpr ⟨h.params.fixedShuffle, rfl⟩

/-- **A header is read off bytes that lead with one**, field by field from its place. -/
theorem decode_eq_ok_iff_leads {h : Header} {rest : List UInt8} :
    decode bytes = .ok (h, rest) ↔ Leads bytes ∧ h = ofPlaces bytes ∧ rest = bytes.drop 47 := by
  rw [decode_eq_ok]
  constructor
  · rintro rfl
    have hleads := leads_encode_append h rest
    refine ⟨hleads, (ofPlaces_encode_append h rest).symm, ?_⟩
    have := encode_ofPlaces_append hleads
    rw [ofPlaces_encode_append] at this
    exact (List.append_cancel_left this).symm
  · rintro ⟨hleads, rfl, rfl⟩
    exact (encode_ofPlaces_append hleads).symm

end Header

/-! ## Records -/

theorem hasFlagAt_drop {skip place : Nat} :
    HasFlagAt (bytes.drop skip) place ↔ HasFlagAt bytes (skip + place) := by
  simp only [HasFlagAt, List.getElem?_drop]

theorem hasFlagAt_take {place k : Nat} (h : place < k) :
    HasFlagAt (bytes.take k) place ↔ HasFlagAt bytes place := by
  simp only [HasFlagAt, List.getElem?_take, if_pos h]

namespace Cell

/-- A record is read if its first byte is a flag; everything else in it is free. -/
theorem exists_ofRecord_iff {record : List UInt8} (hlen : record.length = recordSize) :
    (∃ cell, ofRecord record = .ok cell) ↔ HasFlagAt record 0 := by
  obtain ⟨byte, body, rfl⟩ := List.exists_cons_of_length_eq_add_one (n := 72) hlen
  rw [hasFlagAt_iff, List.getElem?_cons_zero]
  simp only [Option.some.injEq, ← @flagOf_eq_ok "locked", ofRecord, List.headD_cons]
  rcases flagOf "locked" byte with cause | flag <;> simp [bind, Except.bind, pure, Except.pure]

/-- **Records are read if every first byte is a flag.** -/
theorem exists_ofRecords_iff {count : Nat} (hlen : bytes.length = count * recordSize) :
    (∃ cells, ofRecords count bytes = .ok cells) ↔ ∀ i < count, HasFlagAt bytes (i * 73) := by
  induction count generalizing bytes with
  | zero => simp [ofRecords]
  | succ count ih =>
    obtain ⟨hhead, htail⟩ := length_record_of_succ hlen
    have hsplit : (∃ cells, ofRecords (count + 1) bytes = .ok cells) ↔
        (∃ cell, ofRecord (bytes.take recordSize) = .ok cell) ∧
          ∃ cells, ofRecords count (bytes.drop recordSize) = .ok cells := by
      rw [ofRecords]
      rcases ofRecord (bytes.take recordSize) with _ | _ <;>
        rcases ofRecords count (bytes.drop recordSize) with _ | _ <;>
        simp [bind, Except.bind, pure, Except.pure]
    have hplace : ∀ i, recordSize + i * 73 = (i + 1) * 73 := fun i => by
      rw [Nat.succ_mul, Nat.add_comm]
      rfl
    rw [hsplit, exists_ofRecord_iff hhead, hasFlagAt_take (by decide), ih htail,
      Nat.forall_lt_succ_left, Nat.zero_mul]
    simp only [hasFlagAt_drop, hplace]

end Cell

/-! ## Whole soups -/

namespace Grid

theorem layout_of_parts {header : Header} {cells : List Cell}
    (h : parts bytes = .ok (header, cells)) : Layout bytes := by
  obtain ⟨hf, hcount, rfl⟩ := parts_eq_ok.mp h
  obtain ⟨hw, hh, hv⟩ := Header.fault?_eq_none_iff.mp hf
  have hsize : (cells.flatMap Cell.record).length = cells.length * recordSize :=
    Cell.length_flatMap_record cells
  have hflags := (Cell.exists_ofRecords_iff hsize).mp
    ⟨cells, (Cell.ofRecords_eq_ok hsize).mpr ⟨rfl, rfl⟩⟩
  have hheader : header.encode.length = 47 := rfl
  have hcells : header.width.toNat * header.height.toNat = cells.length := by
    rw [Header.cells_eq hf, hcount]
  refine
    { toLeads := Header.leads_encode_append header _
      width_eq := by rw [Header.ofPlaces_encode_append, hw]
      height_eq := by rw [Header.ofPlaces_encode_append, hh]
      fault?_eq := by
        rw [Header.ofPlaces_encode_append]
        exact (Params.fault?_eq_none_iff _).mpr hv
      length_eq := by
        rw [Header.ofPlaces_encode_append, hcells, List.length_append, hsize, hheader]
        rfl
      locked := fun i hi => ?_ }
  rw [Header.ofPlaces_encode_append, hcells] at hi
  have hdrop : (header.encode ++ cells.flatMap Cell.record).drop 47 = cells.flatMap Cell.record :=
    List.drop_left' hheader
  rw [← hasFlagAt_drop, hdrop]
  exact hflags i hi

theorem exists_parts_of_layout (h : Layout bytes) :
    ∃ header cells, parts bytes = .ok (header, cells) := by
  have hf : (Header.ofPlaces bytes).fault? = none :=
    Header.fault?_eq_none_iff.mpr
      ⟨h.width_eq, h.height_eq, (Params.fault?_eq_none_iff _).mp h.fault?_eq⟩
  have hcells := Header.cells_eq hf
  have hsize : (bytes.drop 47).length = (Header.ofPlaces bytes).params.cellCount * recordSize := by
    rw [List.length_drop, h.length_eq, hcells, Nat.add_sub_cancel_left]
    rfl
  obtain ⟨cells, hread⟩ := (Cell.exists_ofRecords_iff hsize).mpr fun i hi => by
    rw [hasFlagAt_drop]
    exact h.locked i (by rwa [hcells])
  obtain ⟨hcount, hrecords⟩ := (Cell.ofRecords_eq_ok hsize).mp hread
  refine ⟨Header.ofPlaces bytes, cells, parts_eq_ok.mpr ⟨hf, hcount, ?_⟩⟩
  rw [← hrecords, Header.encode_ofPlaces_append h.toLeads]

/-- **The header and the cells are read off a layout and off nothing else.** -/
theorem exists_parts_iff :
    (∃ header cells, parts bytes = .ok (header, cells)) ↔ Layout bytes :=
  ⟨fun ⟨_, _, h⟩ => layout_of_parts h, exists_parts_of_layout⟩

/-- **Parts always fit together**: what assembling would refuse is refused before. -/
theorem assemble_of_parts {header : Header} {cells : List Cell}
    (h : parts bytes = .ok (header, cells)) :
    assemble header.params header.epoch cells.toArray
      = .ok ⟨header.params, header.epoch, cells.toArray⟩ := by
  obtain ⟨hf, hcount, -⟩ := parts_eq_ok.mp h
  obtain ⟨-, -, hv⟩ := Header.fault?_eq_none_iff.mp hf
  exact assemble_eq_ok_iff.mpr ⟨⟨hv, hcount⟩, rfl⟩

theorem load_of_layout (h : Layout bytes) (g : Grid) : ∃ loaded, g.load bytes = (loaded, none) := by
  obtain ⟨header, cells, hparts⟩ := exists_parts_iff.mpr h
  exact ⟨_, by simp only [load, ofSaved, hparts, assemble_of_parts hparts]; rfl⟩

/-- What is not laid out as a soup is malformed, and the soup that was there stays. -/
theorem load_of_not_layout (h : ¬ Layout bytes) (g : Grid) :
    ∃ cause, g.load bytes = (g, some (.format cause)) := by
  rcases hparts : parts bytes with cause | ⟨header, cells⟩
  · exact ⟨cause, by simp only [load, ofSaved, hparts]⟩
  · exact absurd (exists_parts_iff.mp ⟨header, cells, hparts⟩) h

/-! ## Prefixes -/

theorem numberAt_append_right {place k : Nat} (h : place + k ≤ bytes.length) (more : List UInt8) :
    numberAt (bytes ++ more) place k = numberAt bytes place k := by
  rw [numberAt, numberAt, List.drop_append_of_le_length (by omega), List.take_append_of_le_length]
  rw [List.length_drop]
  omega

/-- **No layout goes on where another one ends**: the header tells the length. -/
theorem Layout.eq_of_extends {other : List UInt8} (h : Layout bytes) (h' : Layout other)
    (hpre : bytes <+: other) : bytes = other := by
  obtain ⟨more, rfl⟩ := hpre
  have hlen := h.length_le
  have hlength := h'.length_eq
  simp only [Header.ofPlaces] at hlength
  rw [numberAt_append_right (by omega), numberAt_append_right (by omega)] at hlength
  exact (List.prefix_append bytes more).eq_of_length (h.length_eq.trans hlength.symm)

/-! ## Loading -/

theorem layout_save {g : Grid} (hg : g.WellFormed) : Layout g.save :=
  exists_parts_iff.mp ⟨_, _, parts_eq_ok.mpr ⟨hg.fault?_header, hg.size_cells, rfl⟩⟩

/-- **Loading accepts the layout of a saved soup and nothing else, and all of it or nothing.**
Bytes of any other layout are malformed and in no other way wrong, and the soup that was to be
replaced stays.  So a layout cannot be cut short or continued.  Of the checks that come after the
header has been found in order, two never fail: sixty-four bits count the payload, and parts that
were read fit together. -/
theorem load_succeeds_iff_layout (g : Grid) (bytes : List UInt8) :
    ((∃ loaded, g.load bytes = (loaded, none)) ↔ Layout bytes) ∧
      (¬ Layout bytes → ∃ cause, g.load bytes = (g, some (.format cause))) ∧
      (Layout bytes → ∀ other, other ≠ bytes → other <+: bytes ∨ bytes <+: other →
        ∃ cause, g.load other = (g, some (.format cause))) ∧
      (∀ header payload, Header.decode bytes = .ok (header, payload) → header.fault? = none →
        header.payloadSize? ≠ none) ∧
      ∀ header cells, parts bytes = .ok (header, cells) →
        assemble header.params header.epoch cells.toArray
          = .ok ⟨header.params, header.epoch, cells.toArray⟩ := by
  refine ⟨⟨fun ⟨loaded, hload⟩ => ?_, fun h => load_of_layout h g⟩,
    fun h => load_of_not_layout h g, fun h other hne hpre => ?_, fun header payload _ hf => ?_,
    fun header cells hparts => assemble_of_parts hparts⟩
  · by_contra hno
    obtain ⟨cause, hfail⟩ := load_of_not_layout hno g
    rw [hload] at hfail
    cases congrArg Prod.snd hfail
  · refine load_of_not_layout (fun h' => hne ?_) g
    rcases hpre with hpre | hpre
    exacts [Layout.eq_of_extends h' h hpre, (Layout.eq_of_extends h h' hpre).symm]
  · rw [Header.payloadSize?_eq_some hf]
    exact Option.some_ne_none _

/-- Four saved cells, one of them locked, are a layout; with a byte more, or without the last one,
they are not loaded. -/
theorem load_succeeds_iff_layout_square :
    Layout square.save ∧
      (∃ cause, square.load (square.save ++ [0]) = (square, some (.format cause))) ∧
      ∃ cause, square.load square.save.dropLast = (square, some (.format cause)) := by
  have h := layout_save wellFormed_square
  have hloading := (load_succeeds_iff_layout square square.save).2.2.1 h
  refine ⟨h, hloading _ ?_ (.inr (List.prefix_append ..)),
    hloading _ ?_ (.inl (List.dropLast_prefix _))⟩
  · simp
  · intro heq
    have hlength := congrArg List.length heq
    have hpos := h.length_le
    rw [List.length_dropLast] at hlength
    omega

end Grid

end TapeLife
