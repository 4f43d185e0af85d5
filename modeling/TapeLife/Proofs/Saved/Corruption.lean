import TapeLife.Proofs.Saved.Layout

/-!
# Proofs/Saved/Corruption — a wrong byte is refused, or changes one part of the soup

    0       6      10      14     18    26   27     31    35    39     43      47
    marks v width  height  epoch  seed  fix  steps  dist  rate  width  height  lock tape stream …
    ─────── refused ───── ───────────── one part ───────────── ── refused ─── ─ one part of a cell

What a soup holds beside its shape are its `Part`s.  Each has bytes of its own
(`Grid.sliceAt_save`), so two soups differ in a part exactly if their bytes differ there
(`Grid.differs_iff`).  Marks and version are the same for all soups, and sizes stand at two places,
so one wrong byte among those makes bytes of no soup (`Grid.outside_shape`).  At every other place
one part has the byte (`Part.holds_ofPlace`), and it is this part that differs
(`Grid.wrong_byte_contained`).
-/

namespace TapeLife

/-! ## Slices -/

/-- Some bytes from a place on. -/
def sliceAt (bytes : List UInt8) (place length : Nat) : List UInt8 :=
  (bytes.drop place).take length

theorem getElem?_sliceAt (bytes : List UInt8) (place length k : Nat) :
    (sliceAt bytes place length)[k]? = if k < length then bytes[place + k]? else none := by
  rw [sliceAt, List.getElem?_take, List.getElem?_drop]

theorem sliceAt_append_left {front : List UInt8} {place length : Nat}
    (h : place + length ≤ front.length) (behind : List UInt8) :
    sliceAt (front ++ behind) place length = sliceAt front place length := by
  rw [sliceAt, List.drop_append_of_le_length (by omega), List.take_append_of_le_length, sliceAt]
  rw [List.length_drop]
  omega

theorem sliceAt_append_right (front behind : List UInt8) (place length : Nat) :
    sliceAt (front ++ behind) (front.length + place) length = sliceAt behind place length := by
  rw [sliceAt, ← List.drop_drop, List.drop_left, sliceAt]

/-- **A slice is altered exactly if a byte of it is.** -/
theorem sliceAt_set_eq_iff {bytes : List UInt8} {i : Nat} {byte : UInt8} (hi : i < bytes.length)
    (hbyte : bytes[i]? ≠ some byte) (place length : Nat) :
    sliceAt (bytes.set i byte) place length = sliceAt bytes place length ↔
      ¬ (place ≤ i ∧ i < place + length) := by
  constructor
  · rintro hsame ⟨hle, hlt⟩
    have hget := congrArg (·[i - place]?) hsame
    simp only [getElem?_sliceAt, if_pos (show i - place < length by omega),
      Nat.add_sub_cancel' hle, List.getElem?_set_self hi] at hget
    exact hbyte hget.symm
  · intro hout
    refine List.ext_getElem? fun k => ?_
    rw [getElem?_sliceAt, getElem?_sliceAt]
    split
    · rw [List.getElem?_set_ne (by omega)]
    · rfl

/-! ## Parts -/

/-- What a soup holds beside its shape. -/
inductive Part
  | epoch
  | seed
  | fixedShuffle
  | maxSteps
  | maxDist
  | rate
  | lock (cell : Nat)
  | tape (cell : Nat) (byte : Fin tapeSize)
  | stream (cell : Nat)
deriving DecidableEq, Repr

namespace Part

/-- Whether two soups differ in a part; rates are told apart by their bits. -/
def Differs (g h : Grid) : Part → Prop
  | epoch => g.epoch ≠ h.epoch
  | seed => g.params.seed ≠ h.params.seed
  | fixedShuffle => g.params.fixedShuffle ≠ h.params.fixedShuffle
  | maxSteps => g.params.maxSteps ≠ h.params.maxSteps
  | maxDist => g.params.maxDist ≠ h.params.maxDist
  | rate => g.params.rate.bits ≠ h.params.rate.bits
  | lock i => g.cells[i]?.map (·.locked) ≠ h.cells[i]?.map (·.locked)
  | tape i k => g.cells[i]?.map (·.tape.get k) ≠ h.cells[i]?.map (·.tape.get k)
  | stream i => g.cells[i]?.map (·.stream.state) ≠ h.cells[i]?.map (·.stream.state)

/-- Where the bytes of a part begin. -/
def place : Part → Nat
  | epoch => 14
  | seed => 18
  | fixedShuffle => 26
  | maxSteps => 27
  | maxDist => 31
  | rate => 35
  | lock i => 47 + i * 73
  | tape i k => 47 + i * 73 + (1 + k)
  | stream i => 47 + i * 73 + 65

/-- How many bytes a part has. -/
def length : Part → Nat
  | epoch | maxSteps | maxDist | rate => 4
  | seed | stream _ => 8
  | fixedShuffle | lock _ | tape _ _ => 1

/-- Whether a place is one of a byte of the part. -/
def Holds (part : Part) (i : Nat) : Prop := part.place ≤ i ∧ i < part.place + part.length

/-- The bytes of a part. -/
def bytes (g : Grid) : Part → List UInt8
  | epoch => littleEndian 4 g.epoch.toNat
  | seed => littleEndian 8 g.params.seed.toNat
  | fixedShuffle => [flagByte g.params.fixedShuffle]
  | maxSteps => littleEndian 4 g.params.maxSteps.toNat
  | maxDist => littleEndian 4 g.params.maxDist.toNat
  | rate => littleEndian 4 g.params.rate.bits.toNat
  | lock i => (g.cells[i]?.map (·.locked)).elim [] fun flag => [flagByte flag]
  | tape i k => (g.cells[i]?.map (·.tape.get k)).elim [] fun byte => [byte]
  | stream i =>
    (g.cells[i]?.map (·.stream.state)).elim [] fun state => littleEndian 8 state.toNat

/-! ## The part of a place -/

/-- The part that has a byte of a record. -/
def ofRecordPlace (cell k : Nat) : Part :=
  if k = 0 then lock cell
  else if hk : k - 1 < tapeSize then tape cell ⟨k - 1, hk⟩
  else stream cell

/-- The part that has the byte at a place, if a part has it. -/
def ofPlace (i : Nat) : Part :=
  if i < 18 then epoch
  else if i < 26 then seed
  else if i < 27 then fixedShuffle
  else if i < 31 then maxSteps
  else if i < 35 then maxDist
  else if i < 47 then rate
  else ofRecordPlace ((i - 47) / 73) ((i - 47) % 73)

theorem ofPlace_record {k : Nat} (cell : Nat) (hk : k < 73) :
    ofPlace (47 + cell * 73 + k) = ofRecordPlace cell k := by
  have hcell : (47 + cell * 73 + k - 47) / 73 = cell := by omega
  have hplace : (47 + cell * 73 + k - 47) % 73 = k := by omega
  rw [ofPlace, hcell, hplace]
  split_ifs <;> first | rfl | omega

/-- **A byte belongs to one part at most.** -/
theorem Holds.eq_ofPlace {part : Part} {i : Nat} (h : part.Holds i) : part = ofPlace i := by
  have hsize : tapeSize = 64 := rfl
  obtain ⟨hle, hlt⟩ := h
  cases part with
  | epoch | seed | fixedShuffle | maxSteps | maxDist | rate =>
    simp only [place, length] at hle hlt
    rw [ofPlace]
    split_ifs <;> first | rfl | omega
  | lock cell =>
    obtain rfl : i = 47 + cell * 73 + 0 := Nat.le_antisymm (Nat.le_of_lt_succ hlt) hle
    rw [ofPlace_record cell (by decide), ofRecordPlace, if_pos rfl]
  | tape cell byte =>
    obtain rfl : i = 47 + cell * 73 + (1 + byte) := Nat.le_antisymm (Nat.le_of_lt_succ hlt) hle
    have hbyte := byte.isLt
    rw [ofPlace_record cell (by omega), ofRecordPlace, if_neg (by omega), dif_pos (by omega)]
    simp only [Nat.add_sub_cancel_left]
  | stream cell =>
    simp only [place, length] at hle hlt
    obtain ⟨k, rfl⟩ : ∃ k, i = 47 + cell * 73 + (65 + k) := ⟨i - (47 + cell * 73 + 65), by omega⟩
    rw [ofPlace_record cell (by omega), ofRecordPlace, if_neg (by omega),
      dif_neg (by omega)]

/-- **Every place has a part**, the places of marks, version and sizes excepted. -/
theorem holds_ofPlace {i : Nat} (hlow : 14 ≤ i) (hshape : ¬ (39 ≤ i ∧ i < 47)) :
    (ofPlace i).Holds i := by
  have hsize : tapeSize = 64 := rfl
  rw [ofPlace, ofRecordPlace]
  split_ifs <;> simp only [Holds, place, length] <;> omega

/-! ## A part can be told from its bytes -/

theorem flag_inj {a b : Bool} : [flagByte a] = [flagByte b] ↔ a = b := by
  cases a <;> cases b <;> decide

/-- What may be missing can be told from its bytes, if it has bytes when it is there. -/
theorem elim_inj {α : Type} {code : α → List UInt8} (hne : ∀ a, code a ≠ [])
    (hinj : ∀ a b, code a = code b ↔ a = b) (x y : Option α) :
    x.elim [] code = y.elim [] code ↔ x = y := by
  cases x <;> cases y <;> simp [hne, hinj, eq_comm (a := ([] : List UInt8))]

theorem differs_iff_bytes (g h : Grid) (part : Part) :
    part.Differs g h ↔ part.bytes g ≠ part.bytes h := by
  cases part with
  | epoch | maxSteps | maxDist | rate => exact not_congr littleEndian_word_inj.symm
  | seed => exact not_congr littleEndian_wide_inj.symm
  | fixedShuffle => exact not_congr flag_inj.symm
  | lock i => exact not_congr (elim_inj (by simp) (fun _ _ => flag_inj) _ _).symm
  | tape i k => exact not_congr (elim_inj (by simp) (by simp) _ _).symm
  | stream i =>
    have hinj := elim_inj (by simp [littleEndian]) fun _ _ => littleEndian_wide_inj
    exact not_congr (hinj _ _).symm

end Part

/-! ## The bytes of a part stand at its place -/

namespace Cell

theorem sliceAt_record_tape (cell : Cell) (k : Fin tapeSize) :
    sliceAt cell.record (1 + k) 1 = [cell.tape.get k] := by
  have hk : (k : Nat) + 1 ≤ cell.tape.toList.length := by
    rw [Vector.length_toList]
    exact k.isLt
  have hbody : sliceAt cell.record (1 + k) 1
      = sliceAt (cell.tape.toList ++ littleEndian 8 cell.stream.state.toNat) k 1 :=
    sliceAt_append_right [flagByte cell.locked] _ k 1
  rw [hbody, sliceAt_append_left hk, sliceAt, List.take_one, List.head?_drop]
  simp [Vector.get]

theorem sliceAt_record_stream (cell : Cell) :
    sliceAt cell.record 65 8 = littleEndian 8 cell.stream.state.toNat := by
  have hlen : (flagByte cell.locked :: cell.tape.toList).length = 65 := by simp
  have hrest := sliceAt_append_right (flagByte cell.locked :: cell.tape.toList)
    (littleEndian 8 cell.stream.state.toNat) 0 8
  rw [hlen] at hrest
  exact hrest

end Cell

namespace Grid

variable {g h : Grid} {i : Nat} {byte : UInt8}

/-- A slice of a record stands at its place in the bytes of a soup. -/
theorem sliceAt_save_cell (g : Grid) (i place length : Nat) (h : place + length ≤ recordSize) :
    sliceAt g.save (47 + i * 73 + place) length
      = g.cells[i]?.elim [] fun cell => sliceAt cell.record place length := by
  refine List.ext_getElem? fun k => ?_
  rw [getElem?_sliceAt]
  split
  · rename_i hk
    have hbyte : g.save[47 + i * 73 + (place + k)]?
        = g.cells[i]?.bind fun cell => cell.record[place + k]? :=
      g.getElem?_save i (by omega)
    rw [Nat.add_assoc, hbyte]
    cases g.cells[i]? <;> simp [getElem?_sliceAt, hk]
  · rename_i hk
    cases g.cells[i]? <;> simp [getElem?_sliceAt, hk]

/-- **The bytes of a part stand at its place.** -/
theorem sliceAt_save (g : Grid) (part : Part) :
    sliceAt g.save part.place part.length = part.bytes g := by
  cases part with
  | epoch | seed | fixedShuffle | maxSteps | maxDist | rate => rfl
  | lock i =>
    refine (g.sliceAt_save_cell i 0 1 (by decide)).trans ?_
    rw [Part.bytes, Option.elim_map]
    rfl
  | tape i k =>
    have hk : 1 + (k : Nat) + 1 ≤ recordSize := by
      have : (k : Nat) < 64 := k.isLt
      change _ ≤ 73
      omega
    refine (g.sliceAt_save_cell i (1 + k) 1 hk).trans ?_
    simp only [Part.bytes, Option.elim_map, Cell.sliceAt_record_tape, Function.comp_def]
  | stream i =>
    refine (g.sliceAt_save_cell i 65 8 (by decide)).trans ?_
    simp only [Part.bytes, Option.elim_map, Cell.sliceAt_record_stream, Function.comp_def]

/-- **Two soups differ in a part exactly if their bytes differ there.** -/
theorem differs_iff (g h : Grid) (part : Part) : part.Differs g h ↔
    sliceAt h.save part.place part.length ≠ sliceAt g.save part.place part.length := by
  rw [sliceAt_save, sliceAt_save, Part.differs_iff_bytes, ne_comm]

/-! ## A wrong byte -/

section WrongByte

variable (hi : i < g.save.length) (hbyte : g.save[i]? ≠ some byte)
  (hsave : h.save = g.save.set i byte)
include hi hbyte hsave

/-- Bytes that stand at two places for both soups are altered at neither. -/
theorem notMem_of_twice {place place' length : Nat}
    (hg : sliceAt g.save place length = sliceAt g.save place' length)
    (hh : sliceAt h.save place length = sliceAt h.save place' length)
    (hapart : place + length ≤ place') :
    ¬ (place ≤ i ∧ i < place + length) ∧ ¬ (place' ≤ i ∧ i < place' + length) := by
  have halike : sliceAt h.save place length = sliceAt g.save place length ↔
      sliceAt h.save place' length = sliceAt g.save place' length := by rw [hg, hh]
  rw [hsave, sliceAt_set_eq_iff hi hbyte, sliceAt_set_eq_iff hi hbyte] at halike
  omega

/-- **Marks, version and sizes are not altered in the bytes of a soup.** -/
theorem outside_shape : 14 ≤ i ∧ ¬ (39 ≤ i ∧ i < 47) := by
  have hmarks : sliceAt h.save 0 6 = sliceAt g.save 0 6 := rfl
  rw [hsave, sliceAt_set_eq_iff hi hbyte] at hmarks
  have hwidth : ¬ (6 ≤ i ∧ i < 6 + 4) ∧ ¬ (39 ≤ i ∧ i < 39 + 4) :=
    notMem_of_twice hi hbyte hsave rfl rfl (by decide)
  have hheight : ¬ (10 ≤ i ∧ i < 10 + 4) ∧ ¬ (43 ≤ i ∧ i < 43 + 4) :=
    notMem_of_twice hi hbyte hsave rfl rfl (by decide)
  omega

/-- **The part that has the wrong byte differs, and no other part.** -/
theorem differs_iff_eq_ofPlace (part : Part) : part.Differs g h ↔ part = .ofPlace i := by
  obtain ⟨hlow, hshape⟩ := outside_shape hi hbyte hsave
  rw [differs_iff, hsave, Ne, sliceAt_set_eq_iff hi hbyte, Classical.not_not]
  refine ⟨Part.Holds.eq_ofPlace, ?_⟩
  rintro rfl
  exact Part.holds_ofPlace hlow hshape

/-- So the soups have the same shape. -/
theorem shape_eq : h.params.width = g.params.width ∧ h.params.height = g.params.height := by
  obtain ⟨hlow, hshape⟩ := outside_shape hi hbyte hsave
  have hsame : ∀ place, place = 6 ∨ place = 10 →
      sliceAt h.save place 4 = sliceAt g.save place 4 := fun place hplace => by
    rw [hsave, sliceAt_set_eq_iff hi hbyte]
    omega
  exact ⟨littleEndian_word_inj.mp (hsame 6 (.inl rfl)),
    littleEndian_word_inj.mp (hsame 10 (.inr rfl))⟩

end WrongByte

/-- **A wrong byte is refused, or changes one part of the soup.**  Take the bytes of a well-formed
soup and put another byte in one place.  If the place belongs to the marks, the version or one of
the two copies of width and height, no soup is read.  At any other place, if a soup is read, it has
the same width, height and number of cells, and differs from the first one in the part that has the
byte, and in no other part: the epoch, a parameter, or the lock, the stream or a byte of the tape of
one cell. -/
theorem wrong_byte_contained (hg : g.WellFormed) (hi : i < g.save.length)
    (hbyte : g.save[i]? ≠ some byte) :
    let read := ofSaved (g.save.set i byte)
    (i < 14 ∨ 39 ≤ i ∧ i < 47 → ∃ cause, read = .error cause) ∧
      ((∃ cause, read = .error cause) ∨
        ∃ h, read = .ok h ∧ h.params.width = g.params.width ∧ h.params.height = g.params.height ∧
          h.cells.size = g.cells.size ∧
          ∃ part : Part, part.Holds i ∧ ∀ other : Part, other.Differs g h ↔ other = part) := by
  intro read
  rcases hread : read with cause | h
  · exact ⟨fun _ => ⟨cause, rfl⟩, .inl ⟨cause, rfl⟩⟩
  obtain ⟨hh, hsave⟩ := save_of_ofSaved_eq_ok hread
  obtain ⟨hlow, hshape⟩ := outside_shape hi hbyte hsave
  obtain ⟨hwidth, hheight⟩ := shape_eq hi hbyte hsave
  refine ⟨fun hfixed => absurd hfixed (by omega), .inr ⟨h, rfl, hwidth, hheight, ?_, ?_⟩⟩
  · rw [hh.size_cells, hg.size_cells, Params.cellCount, Params.cellCount, Params.torus,
      Params.torus, hwidth, hheight]
  · exact ⟨.ofPlace i, Part.holds_ofPlace hlow hshape, differs_iff_eq_ofPlace hi hbyte hsave⟩

/-- The stale lock of the third of four cells is taken away, and nothing else changes; a width that
is not the width of the other copy is refused. -/
theorem wrong_byte_contained_square :
    (square.WellFormed ∧ 193 < square.save.length ∧ square.save[193]? ≠ some 0) ∧
      (∃ h, ofSaved (square.save.set 193 0) = .ok h ∧
        ∀ other : Part, other.Differs square h ↔ other = .lock 2) ∧
      ∃ cause, ofSaved (square.save.set 6 3) = .error cause := by
  have hlock : 193 < square.save.length ∧ square.save[193]? ≠ some 0 := by decide +kernel
  have hwidth : 6 < square.save.length ∧ square.save[6]? ≠ some 3 := by decide +kernel
  have hok : (ofSaved (square.save.set 193 0)).isOk = true := by decide +kernel
  obtain ⟨-, ⟨cause, hcause⟩ | ⟨h, hread, -, -, -, part, hholds, hpart⟩⟩ :=
    wrong_byte_contained wellFormed_square hlock.1 hlock.2
  · rw [hcause] at hok
    cases hok
  · obtain rfl : part = .lock 2 := hholds.eq_ofPlace
    exact ⟨⟨wellFormed_square, hlock⟩, ⟨h, hread, hpart⟩,
      (wrong_byte_contained wellFormed_square hwidth.1 hwidth.2).1 (.inl (by decide))⟩

end Grid

end TapeLife
