import TapeLife.Proofs.Saved.Layout

/-!
# Proofs/Saved/Reading — a header is read, or refused for the first thing that is wrong with it

    0 ──marks?──▸ 4 ──version?──▸ 6 ────────▸ 26 ──flag?──▸ 27 ────────▸ 47
     └─ cut short anywhere: truncated

A reader that stands at a place goes on at the place after its field, or finds that the bytes end
before it (`Reader.number_bind_drop`).  So the header that is read off some bytes, or the cause why
none is (`Header.defect?`), can be told from the places alone (`Header.decode_eq`).  Nothing else is
asked of a header: reading and writing are inverse for every one
(`Header.decode_inverts_encode`).
-/

namespace TapeLife

variable {bytes : List UInt8} {place : Nat}

instance : Decidable (HasFlagAt bytes place) := inferInstanceAs (Decidable (_ ∨ _))

/-! ## Flags at their places -/

theorem ofNat_numberAt_one : UInt8.ofNat (numberAt bytes place 1) = bytes.getD place 0 := by
  rw [numberAt, List.take_one, List.head?_drop, List.getD_eq_getElem?_getD]
  cases bytes[place]? with
  | none => rfl
  | some byte => simp [ofLittleEndian]

theorem getElem?_eq_getD (hplace : place < bytes.length) :
    bytes[place]? = some (bytes.getD place 0) := by
  rw [List.getD_eq_getElem?_getD, List.getElem?_eq_getElem hplace, Option.getD_some]

theorem not_hasFlagAt_iff (hplace : place < bytes.length) :
    ¬ HasFlagAt bytes place ↔ bytes.getD place 0 ≠ 0 ∧ bytes.getD place 0 ≠ 1 := by
  rw [HasFlagAt, getElem?_eq_getD hplace, Option.some_inj, Option.some_inj, not_or]

/-- A byte is read as a flag, or is named as what is wrong. -/
theorem flagOf_getD (field : String) (hplace : place < bytes.length) :
    flagOf field (bytes.getD place 0) =
      if HasFlagAt bytes place then .ok (bytes[place]? == some 1)
      else .error (.badFlag field (bytes.getD place 0)) := by
  split_ifs with hflag
  · obtain ⟨flag, hbyte⟩ := hasFlagAt_iff.mp hflag
    rw [flagOf_eq_ok, ← Option.some_inj, ← getElem?_eq_getD hplace, hbyte]
    cases flag <;> rfl
  · obtain ⟨h0, h1⟩ := (not_hasFlagAt_iff hplace).mp hflag
    rw [flagOf, if_neg h0, if_neg h1]

/-! ## Reading at a place -/

namespace Reader

variable {α β : Type}

theorem take_bind_drop {n : Nat} (hn : 0 < n) (k : List UInt8 → Reader β) :
    (take n >>= k) (bytes.drop place) =
      if bytes.length < place + n then .error .truncatedHeader
      else k ((bytes.drop place).take n) (bytes.drop (place + n)) := by
  have hshort : (bytes.drop place).length < n ↔ bytes.length < place + n := by
    rw [List.length_drop]
    omega
  simp only [bind, StateT.bind, take, hshort, List.drop_drop]
  split <;> rfl

/-- **A reader that stands at a place goes on after its field**, if the bytes reach that far. -/
theorem number_bind_drop {n : Nat} (hn : 0 < n) (k : Nat → Reader β) :
    (number n >>= k) (bytes.drop place) =
      if bytes.length < place + n then .error .truncatedHeader
      else k (numberAt bytes place n) (bytes.drop (place + n)) := by
  rw [number, bind_assoc, take_bind_drop hn]
  rfl

theorem word_bind_drop (k : UInt32 → Reader β) :
    (word >>= k) (bytes.drop place) =
      if bytes.length < place + 4 then .error .truncatedHeader
      else k (UInt32.ofNat (numberAt bytes place 4)) (bytes.drop (place + 4)) := by
  rw [word, bind_assoc, number_bind_drop (by decide)]
  rfl

theorem wide_bind_drop (k : UInt64 → Reader β) :
    (wide >>= k) (bytes.drop place) =
      if bytes.length < place + 8 then .error .truncatedHeader
      else k (UInt64.ofNat (numberAt bytes place 8)) (bytes.drop (place + 8)) := by
  rw [wide, bind_assoc, number_bind_drop (by decide)]
  rfl

theorem flag_bind_drop {field : String} (k : Bool → Reader β) :
    (number 1 >>= fun n => (liftM (flagOf field (UInt8.ofNat n)) : Reader Bool) >>= k)
        (bytes.drop place) =
      if bytes.length < place + 1 then .error .truncatedHeader
      else if HasFlagAt bytes place then k (bytes[place]? == some 1) (bytes.drop (place + 1))
      else .error (.badFlag field (bytes.getD place 0)) := by
  rw [number_bind_drop (by decide), ofNat_numberAt_one]
  split_ifs with hshort hflag
  · rfl
  · simp only [flagOf_getD field (Nat.not_lt.mp hshort), if_pos hflag]
    rfl
  · simp only [flagOf_getD field (Nat.not_lt.mp hshort), if_neg hflag]
    rfl

/-- What is refused is refused for its own cause. -/
theorem refuse_apply {c : Prop} [Decidable c] {cause : FormatError} {k : α → Reader β}
    {r : Reader β} :
    (if c then (throw cause : Reader α) >>= k else r) bytes =
      if c then .error cause else r bytes := by
  split_ifs <;> rfl

/-- Bytes that end before a field end before every later one. -/
theorem short_short {m n : Nat} (h : m ≤ n) (failed read : Except FormatError β) :
    (if bytes.length < m then failed else if bytes.length < n then failed else read) =
      if bytes.length < n then failed else read := by
  split_ifs <;> first | rfl | omega

end Reader

namespace Header

/-- Parameters end at a flag that is none, or where the bytes end. -/
theorem readParams_bind_drop {β : Type} (k : Params → Reader β) :
    (readParams >>= k) (bytes.drop 18) =
      if bytes.length < 27 then .error .truncatedHeader
      else if HasFlagAt bytes 26 then
        if bytes.length < 47 then .error .truncatedHeader
        else k (ofPlaces bytes).params (bytes.drop 47)
      else .error (.badFlag "fixed_shuffle" (bytes.getD 26 0)) := by
  simp only [readParams, bind_assoc, pure_bind, Reader.wide_bind_drop, Reader.flag_bind_drop]
  simp (disch := omega) only [Reader.word_bind_drop, Reader.short_short]
  rfl

/-- The first thing that keeps bytes from starting with a header. -/
def defect? (bytes : List UInt8) : Option FormatError :=
  if bytes.length < 4 then some .truncatedHeader
  else if bytes.take 4 ≠ magic then some .badMagic
  else if bytes.length < 6 then some .truncatedHeader
  else if numberAt bytes 4 2 ≠ version then some (.unsupportedVersion (numberAt bytes 4 2))
  else if bytes.length < 27 then some .truncatedHeader
  else if HasFlagAt bytes 26 then
    if bytes.length < size then some .truncatedHeader else none
  else some (.badFlag "fixed_shuffle" (bytes.getD 26 0))

/-- **A header is read off the places of its fields**, or the first defect is the cause why not. -/
theorem decode_eq (bytes : List UInt8) :
    decode bytes = match defect? bytes with
      | some cause => .error cause
      | none => .ok (ofPlaces bytes, bytes.drop size) := by
  change read (bytes.drop 0) = _
  have htwo : 0 < 2 := by decide
  rw [read, Reader.take_bind_drop (by decide)]
  simp only [Reader.number_bind_drop htwo, Reader.refuse_apply, Reader.word_bind_drop,
    readParams_bind_drop, Nat.reduceAdd, List.drop_zero]
  simp (disch := omega) only [Reader.short_short]
  rw [defect?, size]
  split_ifs <;> rfl

/-- Wrong marks are told before what is missing after them. -/
example : defect? [0x42, 0x46, 0x53] = some .truncatedHeader ∧
    defect? [0x42, 0x46, 0x53, 0x58] = some .badMagic := by decide

theorem decode_eq_error {cause : FormatError} :
    decode bytes = .error cause ↔ defect? bytes = some cause := by
  rw [decode_eq]
  cases defect? bytes <;> simp

/-- **Every defect is one of four**, and is there in the bytes. -/
theorem defect?_cases {cause : FormatError} (h : defect? bytes = some cause) :
    cause = .truncatedHeader ∧ bytes.length < 47 ∨
      cause = .badMagic ∧ 4 ≤ bytes.length ∧ bytes.take 4 ≠ magic ∨
      cause = .unsupportedVersion (numberAt bytes 4 2) ∧ 6 ≤ bytes.length ∧
        numberAt bytes 4 2 ≠ version ∨
      ∃ byte, cause = .badFlag "fixed_shuffle" byte ∧ bytes[26]? = some byte ∧
        byte ≠ 0 ∧ byte ≠ 1 := by
  rw [defect?] at h
  split_ifs at h with hmarks hmagic hsix hversion hplace hflag hsize <;>
    obtain rfl := Option.some.inj h
  · exact .inl ⟨rfl, by omega⟩
  · exact .inr (.inl ⟨rfl, Nat.not_lt.mp hmarks, hmagic⟩)
  · exact .inl ⟨rfl, by omega⟩
  · exact .inr (.inr (.inl ⟨rfl, Nat.not_lt.mp hsix, hversion⟩))
  · exact .inl ⟨rfl, by omega⟩
  · exact .inl ⟨rfl, hsize⟩
  · have hlt : 26 < bytes.length := Nat.not_lt.mp hplace
    exact .inr (.inr (.inr ⟨_, rfl, getElem?_eq_getD hlt, (not_hasFlagAt_iff hlt).mp hflag⟩))

theorem not_leads_iff :
    ¬ Leads bytes ↔ bytes.length < 47 ∨ bytes.take 4 ≠ magic ∨ numberAt bytes 4 2 ≠ version ∨
      ¬ HasFlagAt bytes 26 := by
  have hleads : Leads bytes ↔ 47 ≤ bytes.length ∧ bytes.take 4 = magic ∧
      numberAt bytes 4 2 = version ∧ HasFlagAt bytes 26 :=
    ⟨fun h => ⟨h.length_le, h.magic, h.version, h.fixedShuffle⟩,
      fun ⟨hlen, hmagic, hversion, hflag⟩ => ⟨hlen, hmagic, hversion, hflag⟩⟩
  rw [hleads, not_and_or, not_and_or, not_and_or, Nat.not_le]

theorem exists_decode_eq_error_iff :
    (∃ cause, decode bytes = .error cause) ↔ ¬ Leads bytes := by
  constructor
  · rintro ⟨cause, herror⟩ hleads
    have hok := decode_eq_ok_iff_leads.mpr ⟨hleads, rfl, rfl⟩
    rw [herror] at hok
    cases hok
  · intro hnot
    rcases hdecode : decode bytes with cause | ⟨header, rest⟩
    · exact ⟨cause, rfl⟩
    · exact absurd (decode_eq_ok_iff_leads.mp hdecode).1 hnot

/-- A soup is not replaced by bytes that start with no header. -/
theorem load_of_decode_eq_error {cause : FormatError} (h : decode bytes = .error cause) (g : Grid) :
    g.load bytes = (g, some (.format cause)) := by
  have hparts : Grid.parts bytes = .error cause := by rw [Grid.parts, h]; rfl
  simp only [Grid.load, Grid.ofSaved, hparts]

/-- **Reading a header and writing one are inverse**, whatever the header describes: sizes may be
zero or contradict each other, and the bits of the rate may be no number.  What was written in front
of other bytes is read and leaves just these, and what is read is what was written there.  Nothing
is read off bytes that are too few, or whose marks, version or flag are not those of the format; all
of this is malformed, and is told by the first of them that is found. -/
theorem decode_inverts_encode :
    (∀ (header : Header) (rest : List UInt8),
      decode (header.encode ++ rest) = .ok (header, rest)) ∧
    (∀ (bytes : List UInt8) (header : Header) (rest : List UInt8),
      decode bytes = .ok (header, rest) → header.encode ++ rest = bytes) ∧
    ∀ bytes : List UInt8,
      ((∃ cause, decode bytes = .error cause) ↔
        bytes.length < 47 ∨ bytes.take 4 ≠ magic ∨ numberAt bytes 4 2 ≠ version ∨
          ¬ HasFlagAt bytes 26) ∧
      ∀ cause, decode bytes = .error cause →
        (cause = .truncatedHeader ∧ bytes.length < 47 ∨
          cause = .badMagic ∧ 4 ≤ bytes.length ∧ bytes.take 4 ≠ magic ∨
          cause = .unsupportedVersion (numberAt bytes 4 2) ∧ 6 ≤ bytes.length ∧
            numberAt bytes 4 2 ≠ version ∨
          ∃ byte, cause = .badFlag "fixed_shuffle" byte ∧ bytes[26]? = some byte ∧
            byte ≠ 0 ∧ byte ≠ 1) ∧
        ∀ g : Grid, g.load bytes = (g, some (.format cause)) := by
  refine ⟨fun header rest => decode_eq_ok.mpr rfl,
    fun bytes header rest hdecode => (decode_eq_ok.mp hdecode).symm,
    fun bytes => ⟨exists_decode_eq_error_iff.trans not_leads_iff, fun cause herror => ?_⟩⟩
  exact ⟨defect?_cases (decode_eq_error.mp herror), load_of_decode_eq_error herror⟩

/-- A header that describes no soup: its sizes are zero in one place and unequal in the other, and
its rate is no number. -/
def contradictory : Header where
  width := 0
  height := 3
  epoch := 0xffffffff
  params :=
    { seed := 7, fixedShuffle := true, maxSteps := 0, maxDist := 0, rate := ⟨0x7fc00001⟩
      width := 5, height := 0 }

/-- The header that describes no soup is read back all the same, and is not if its last byte is
missing. -/
theorem decode_inverts_encode_contradictory :
    contradictory.fault? ≠ none ∧
      decode (contradictory.encode ++ [9]) = .ok (contradictory, [9]) ∧
      contradictory.encode ++ [9] = [0x42, 0x46, 0x53, 0x57, 1, 0, 0, 0, 0, 0, 3, 0, 0, 0] ++
        [255, 255, 255, 255, 7, 0, 0, 0, 0, 0, 0, 0, 1, 0, 0, 0, 0, 0, 0, 0, 0, 1, 0, 192, 127] ++
        [5, 0, 0, 0, 0, 0, 0, 0, 9] ∧
      ∃ cause, decode contradictory.encode.dropLast = .error cause ∧
        Grid.square.load contradictory.encode.dropLast
          = (Grid.square, some (.format cause)) := by
  obtain ⟨hread, hwritten, hrefused⟩ := decode_inverts_encode
  obtain ⟨cause, herror⟩ := (hrefused contradictory.encode.dropLast).1.mpr (.inl (by decide))
  exact ⟨by decide, hread contradictory [9],
    hwritten _ contradictory [9] (by rfl), cause, herror,
    ((hrefused _).2 cause herror).2 Grid.square⟩

end Header

end TapeLife
