import Mathlib.Data.Set.Card
import Mathlib.Tactic.SplitIfs
import TapeLife.Proofs.Census.Counts
import TapeLife.Proofs.Grid.Matching

/-!
# Proofs/Census/Ranking — the most frequent bytes

    present ──sort──▸ ranked ──take 8──▸ listed | left out

Every byte that occurs is present once, with its count (`mem_present`, `nodup_present`).  Ranking is
total, so sorting leaves every entry strictly before the next, and what is cut off comes after all
that is listed (`Census.outranks_of_notMem`).
-/

namespace TapeLife

namespace ByteCounts

/-- An entry comes before another one: it is more frequent, or as frequent and smaller. -/
def Outranks (a b : UInt8 × Nat) : Prop := b.2 < a.2 ∨ a.2 = b.2 ∧ a.1 < b.1

/-! ## What is present -/

variable {counts : ByteCounts}

theorem present_eq (counts : ByteCounts) :
    counts.present = (List.finRange 256).filterMap fun i =>
      if counts.of (.ofFin i) = 0 then none else some (.ofFin i, counts.of (.ofFin i)) := by
  have hplaces : counts.toList.zipIdx
      = (List.finRange 256).map fun i => (counts.of (.ofFin i), i.val) := by
    refine List.ext_getElem (by simp) fun i h h' => ?_
    have hi : i < 256 := by simpa using h'
    rw [List.getElem_zipIdx, List.getElem_map, List.getElem_finRange, Vector.getElem_toList,
      Nat.zero_add]
    rfl
  have hbyte : ∀ i : Fin 256, UInt8.ofNat i = .ofFin i := fun i =>
    UInt8.toNat_inj.mp (UInt8.toNat_ofNat_of_lt' i.isLt)
  rw [present, hplaces, List.filterMap_map]
  exact List.filterMap_congr fun i _ => by simp only [Function.comp_apply, hbyte]

/-- **Present are the bytes that occur, with their counts.** -/
theorem mem_present {entry : UInt8 × Nat} :
    entry ∈ counts.present ↔ entry.2 = counts.of entry.1 ∧ 0 < entry.2 := by
  obtain ⟨byte, n⟩ := entry
  simp only [present_eq, List.mem_filterMap, List.mem_finRange, true_and]
  constructor
  · rintro ⟨i, hentry⟩
    split_ifs at hentry with hzero
    obtain ⟨rfl, rfl⟩ := Prod.mk.inj (Option.some.inj hentry)
    exact ⟨rfl, Nat.pos_of_ne_zero hzero⟩
  · rintro ⟨rfl, hpos⟩
    exact ⟨byte.toFin, if_neg (Nat.ne_of_gt hpos)⟩

/-- No byte is present twice. -/
theorem nodup_present (counts : ByteCounts) : (counts.present.map (·.1)).Nodup := by
  rw [present_eq, List.map_filterMap]
  refine List.Nodup.filterMap (fun i j byte hi hj => ?_) (List.nodup_finRange 256)
  have hbyte : ∀ k, byte ∈ Option.map (·.1)
      (if counts.of (.ofFin k) = 0 then none else some (UInt8.ofFin k, counts.of (.ofFin k))) →
        UInt8.ofFin k = byte := fun k hk => by
    split_ifs at hk
    · simp at hk
    · exact Option.some.inj hk
  simpa using congrArg UInt8.toFin ((hbyte i hi).trans (hbyte j hj).symm)

/-- There are as many entries as bytes that occur. -/
theorem length_present (counts : ByteCounts) :
    counts.present.length = {byte | 0 < counts.of byte}.ncard := by
  have hbytes : {byte | 0 < counts.of byte} = ((counts.present.map (·.1)).toFinset : Set UInt8) := by
    ext byte
    simp [mem_present]
  rw [hbytes, Set.ncard_coe_finset, List.toFinset_card_of_nodup (nodup_present counts),
    List.length_map]

/-! ## What is listed -/

theorem ranksBefore_iff {a b : UInt8 × Nat} :
    ranksBefore a b = true ↔ b.2 < a.2 ∨ a.2 = b.2 ∧ a.1 ≤ b.1 := by
  simp [ranksBefore]

theorem ranksBefore_trans (a b c : UInt8 × Nat) (hab : ranksBefore a b = true)
    (hbc : ranksBefore b c = true) : ranksBefore a c = true := by
  rw [ranksBefore_iff, UInt8.le_iff_toNat_le] at *
  omega

theorem ranksBefore_total (a b : UInt8 × Nat) : (ranksBefore a b || ranksBefore b a) = true := by
  rw [Bool.or_eq_true, ranksBefore_iff, ranksBefore_iff, UInt8.le_iff_toNat_le,
    UInt8.le_iff_toNat_le]
  omega

/-- The entries in order, each strictly before the next. -/
theorem pairwise_ranked (counts : ByteCounts) :
    (counts.present.mergeSort ranksBefore).Pairwise Outranks := by
  have hperm := counts.present.mergeSort_perm ranksBefore
  have hnodup : ((counts.present.mergeSort ranksBefore).map (·.1)).Nodup :=
    (hperm.map _).nodup_iff.mpr (nodup_present counts)
  refine ((List.pairwise_mergeSort ranksBefore_trans ranksBefore_total counts.present).and
    (List.pairwise_map.mp hnodup)).imp fun {a b} h => ?_
  obtain hmore | ⟨heq, hle⟩ := ranksBefore_iff.mp h.1
  · exact .inl hmore
  · exact .inr ⟨heq, UInt8.lt_of_le_of_ne hle h.2⟩

end ByteCounts

open ByteCounts

namespace Census

variable {c : Census}

theorem length_topBytes (c : Census) :
    c.topBytes.length = min topSize {byte | 0 < c.counts.of byte}.ncard := by
  rw [topBytes, List.length_take, List.length_mergeSort, length_present]

theorem of_mem_topBytes {entry : UInt8 × Nat} (h : entry ∈ c.topBytes) :
    entry.2 = c.counts.of entry.1 ∧ 0 < entry.2 :=
  mem_present.mp (List.mem_mergeSort.mp (List.mem_of_mem_take h))

theorem pairwise_topBytes (c : Census) : c.topBytes.Pairwise Outranks :=
  (pairwise_ranked c.counts).take

/-- **What is listed comes before all that is not.** -/
theorem outranks_of_notMem {byte : UInt8} (hpresent : 0 < c.counts.of byte)
    (hout : byte ∉ c.topBytes.map (·.1)) {entry : UInt8 × Nat} (h : entry ∈ c.topBytes) :
    Outranks entry (byte, c.counts.of byte) := by
  have hmem : (byte, c.counts.of byte) ∈ c.counts.present.mergeSort ranksBefore :=
    List.mem_mergeSort.mpr (mem_present.mpr ⟨rfl, hpresent⟩)
  have hranked := pairwise_ranked c.counts
  rw [← List.take_append_drop topSize (c.counts.present.mergeSort ranksBefore)] at hmem hranked
  obtain htop | hrest := List.mem_append.mp hmem
  · exact absurd (List.mem_map_of_mem htop) hout
  · exact (List.pairwise_append.mp hranked).2.2 entry h _ hrest

/-! ## Soups -/

/-- A census that agrees with what is on the tapes of a soup. -/
structure Exact (g : Grid) (c : Census) : Prop where
  counts : ∀ byte, c.counts.of byte = (g.cells.toList.flatMap (·.tape.toList)).count byte
  totalTapes : c.totalTapes = g.params.cellCount
  emptyTapes : c.emptyTapes = (g.cells.toList.map (·.tape)).count Tape.blank
  emptyTapes_le : c.emptyTapes ≤ c.totalTapes
  totalBytes : c.totalBytes = 64 * c.totalTapes
  zeros : 64 * c.emptyTapes ≤ c.counts.of 0
  /-- The live tapes have what is left without the blank ones. -/
  liveBytes : g.liveBytes.length = 64 * (c.totalTapes - c.emptyTapes)
  liveCounts : ∀ byte, g.liveBytes.count byte
    = c.counts.of byte - if byte = 0 then 64 * c.emptyTapes else 0
  uniqueBytes : c.uniqueBytes = {byte | ∃ cell ∈ g.cells, byte ∈ cell.tape}.ncard
  length_topBytes : c.topBytes.length = min 8 {byte | ∃ cell ∈ g.cells, byte ∈ cell.tape}.ncard
  topBytes : ∀ entry ∈ c.topBytes, entry.2 = c.counts.of entry.1 ∧ 0 < entry.2
  pairwise_topBytes : c.topBytes.Pairwise Outranks
  /-- A byte that is not listed comes after all that are. -/
  outranks : ∀ cell ∈ g.cells, ∀ byte ∈ cell.tape, byte ∉ c.topBytes.map (·.1) →
    ∀ entry ∈ c.topBytes, Outranks entry (byte, c.counts.of byte)
  instructionFraction : c.instructionFraction =
    if g.liveBytes.length = 0 then 0
    else Float.ofNat (g.liveBytes.countP Instruction.isActive) / Float.ofNat g.liveBytes.length
  /-- A `Float` holds both numbers without rounding. -/
  length_lt : g.liveBytes.length < 2 ^ 53

variable {g : Grid}

theorem liveBytes_eq (g : Grid) : g.liveBytes = Cell.liveBytesOf g.cells.toList := rfl

theorem of_ofGrid (g : Grid) (byte : UInt8) :
    (ofGrid g).counts.of byte = (Cell.bytesOf g.cells.toList).count byte := of_ofBytes _ byte

theorem emptyTapes_ofGrid (g : Grid) :
    (ofGrid g).emptyTapes = g.cells.toList.countP Cell.isBlank := (Array.countP_toList ..).symm

theorem emptyTapes_le (g : Grid) : (ofGrid g).emptyTapes ≤ (ofGrid g).totalTapes :=
  Array.countP_le_size

theorem length_liveBytes (g : Grid) :
    g.liveBytes.length = tapeSize * ((ofGrid g).totalTapes - (ofGrid g).emptyTapes) := by
  rw [liveBytes_eq, Cell.length_liveBytesOf, emptyTapes_ofGrid, ofGrid, Array.length_toList]

/-- A byte occurs as often as it occurs on live tapes, and zero on blank ones as well. -/
theorem of_ofGrid_eq (g : Grid) (byte : UInt8) :
    (ofGrid g).counts.of byte
      = g.liveBytes.count byte + if byte = 0 then tapeSize * (ofGrid g).emptyTapes else 0 := by
  rw [of_ofGrid, Cell.count_bytesOf_eq, emptyTapes_ofGrid, liveBytes_eq]

theorem totalBytes_ofGrid (g : Grid) :
    (ofGrid g).totalBytes = tapeSize * (ofGrid g).totalTapes := by
  rw [totalBytes, ofGrid, total_ofBytes, ← Array.length_toList]
  exact Cell.length_bytesOf _

/-- The bytes that occur are those on a tape. -/
theorem pos_of_ofGrid_iff {byte : UInt8} :
    0 < (ofGrid g).counts.of byte ↔ ∃ cell ∈ g.cells, byte ∈ cell.tape := by
  rw [of_ofGrid, List.count_pos_iff, Cell.bytesOf, List.mem_flatMap]
  simp only [Array.mem_toList_iff, Vector.mem_toList_iff]

/-- The order of the cells does not matter. -/
theorem ofGrid_perm {cells : Array Cell} (h : cells.Perm g.cells) :
    ofGrid { g with cells } = ofGrid g := by
  have hlist := Array.perm_iff_toList_perm.mp h
  have hbytes : (Cell.bytesOf cells.toList).Perm (Cell.bytesOf g.cells.toList) :=
    hlist.flatMap_right _
  have hlive : (Cell.liveBytesOf cells.toList).Perm (Cell.liveBytesOf g.cells.toList) :=
    (hlist.filter _).flatMap_right _
  have hempty : cells.countP Cell.isBlank = g.cells.countP Cell.isBlank := by
    rw [← Array.countP_toList, ← Array.countP_toList, hlist.countP_eq]
  have hinstructions : (Cell.liveBytesOf cells.toList).countP Instruction.isActive
      = (Cell.liveBytesOf g.cells.toList).countP Instruction.isActive := hlive.countP_eq _
  simp only [ofGrid, liveBytes_eq, h.size_eq, hempty, hinstructions]
  congr 1
  exact ofBytes_perm hbytes

/-- One pass ends with the numbers of the census. -/
theorem counts_pass (g : Grid) : g.pass.Counts g.cells.toList := by
  rw [Grid.pass, ← Array.foldl_toList]
  exact Pass.counts_foldl _

/-- **The census of a soup is exact, and the order of its cells does not matter.**  One pass over
the cells ends with the same numbers. -/
theorem exact_ofGrid (hg : g.WellFormed) :
    Exact g (ofGrid g) ∧
      (g.pass.counts = (ofGrid g).counts ∧ g.pass.emptyTapes = (ofGrid g).emptyTapes ∧
        g.pass.liveBytes = g.liveBytes.length ∧
        g.pass.liveInstructions = (ofGrid g).liveInstructions) ∧
      ∀ cells : Array Cell, cells.Perm g.cells →
        ofGrid { g with cells } = ofGrid g := by
  have hpass := counts_pass g
  have hpresent : {byte | 0 < (ofGrid g).counts.of byte}
      = {byte | ∃ cell ∈ g.cells, byte ∈ cell.tape} := Set.ext fun _ => pos_of_ofGrid_iff
  refine ⟨?exact, ⟨hpass.counts, ?_, hpass.liveBytes, hpass.liveInstructions⟩,
    fun cells => ofGrid_perm⟩
  case exact =>
    exact {
      counts := of_ofGrid g
      totalTapes := hg.size_cells
      emptyTapes := by
        rw [emptyTapes_ofGrid, List.count, List.countP_map]
        refine List.countP_congr fun cell _ => ?_
        simp [Cell.isBlank, Tape.isBlank_iff]
      emptyTapes_le := emptyTapes_le g
      totalBytes := totalBytes_ofGrid g
      zeros := by rw [of_ofGrid_eq, if_pos rfl]; exact Nat.le_add_left _ _
      liveBytes := length_liveBytes g
      liveCounts := fun byte => by rw [of_ofGrid_eq, Nat.add_sub_cancel]
      uniqueBytes := by rw [uniqueBytes, length_present, hpresent]
      length_topBytes := by rw [Census.length_topBytes, hpresent, topSize]
      topBytes := fun entry => of_mem_topBytes
      pairwise_topBytes := Census.pairwise_topBytes _
      outranks := fun cell hcell byte hbyte hout entry hentry =>
        outranks_of_notMem (pos_of_ofGrid_iff.mpr ⟨cell, hcell, hbyte⟩) hout hentry
      instructionFraction := by rw [Census.instructionFraction, share, length_liveBytes]; rfl
      length_lt := by
        have hcells : (ofGrid g).totalTapes ≤ 0x7fffffff :=
          hg.size_cells.trans_le hg.valid.cellCount_le
        rw [length_liveBytes, tapeSize]
        omega }
  · rw [hpass.emptyTapes, emptyTapes_ofGrid]

/-- Two of four tapes are blank, eight of ten bytes are listed, and the cells may stand the other way
round. -/
theorem exact_ofGrid_square :
    Grid.square.WellFormed ∧ (ofGrid Grid.square).emptyTapes = 2 ∧
      Grid.square.liveBytes.length = 128 ∧ (ofGrid Grid.square).uniqueBytes = 10 ∧
      (ofGrid Grid.square).topBytes.length = 8 ∧
      ofGrid { Grid.square with cells := Grid.square.cells.reverse } = ofGrid Grid.square := by
  have hempty : (ofGrid Grid.square).emptyTapes = 2 := by decide +kernel
  have hunique : (ofGrid Grid.square).uniqueBytes = 10 := by decide +kernel
  obtain ⟨hexact, -, hperm⟩ := exact_ofGrid Grid.wellFormed_square
  refine ⟨Grid.wellFormed_square, hempty, ?_, hunique, ?_, hperm _ ?_⟩
  · rw [hexact.liveBytes, hempty]
    rfl
  · rw [hexact.length_topBytes, ← hexact.uniqueBytes, hunique]
    rfl
  · rw [Array.perm_iff_toList_perm, Array.toList_reverse]
    exact List.reverse_perm _

end Census

end TapeLife
