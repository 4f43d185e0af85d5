import Mathlib.Data.Set.Card
import TapeLife.Proofs.Mutation.Chances
import TapeLife.Proofs.Random.Cycle

/-!
# Proofs/Mutation/Passes — what a mutation pass does with the words of a stream

    word    ┌────── 24 bits ──────┬─ 8 bits ─┐
              below the chances?    the byte
                     └──── yes ────▸ written ────▸ in the place of the byte it was drawn for

A word does the same to a byte wherever it is drawn (`wordActs_replacement`), and the two parts of a
word do not overlap, so each byte is written by as many words as there are chances
(`ncard_writing`).  More chances let more words write and change nothing about the words that
wrote before (`replacement?_mono`).  As every byte takes one word whatever becomes of it, passes at
different rates stay in step, and a pass can be cut in two anywhere (`mutate_append`).
-/

namespace TapeLife

/-! ## What one word does -/

/-- The byte that a word writes over the one it is drawn for, if it replaces that one at all. -/
def replacement? (threshold : Nat) (word : UInt32) : Option UInt8 :=
  if (word >>> 8).toNat < threshold then some word.toUInt8 else none

/-- Whether a word, wherever it is drawn and whatever byte it is drawn for, makes a mutation pass
write a byte and count it, or else keep the byte that was there. -/
def WordActs (threshold : Nat) (word : UInt32) (written : Option UInt8) : Prop :=
  ∀ s : Stream, s.output = word → ∀ byte rest,
    let after := mutate threshold rest s.step
    mutate threshold (byte :: rest) s
      = ⟨written.getD byte :: after.bytes, after.stream, after.count + written.isSome.toNat⟩

variable {threshold : Nat} {word : UInt32} {byte : UInt8}

theorem wordActs_replacement (threshold : Nat) (word : UInt32) :
    WordActs threshold word (replacement? threshold word) := by
  rintro s rfl byte rest
  simp only [mutate, replacement?]
  split <;> rfl

/-- **A word acts in one way only.** -/
theorem wordActs_iff {written : Option UInt8} :
    WordActs threshold word written ↔ replacement? threshold word = written := by
  refine ⟨fun h => ?_, fun h => h ▸ wordActs_replacement threshold word⟩
  obtain ⟨s, hs⟩ := Stream.output_surjective word
  have hpass : ∀ byte, (replacement? threshold word).getD byte = written.getD byte ∧
      (replacement? threshold word).isSome.toNat = written.isSome.toNat := fun byte => by
    have hsame := (wordActs_replacement threshold word s hs byte []).symm.trans (h s hs byte [])
    simpa [mutate] using hsame
  generalize replacement? threshold word = found at hpass ⊢
  rcases found with _ | v <;> rcases written with _ | w <;> simp_all

theorem toNat_shiftRight_eight (word : UInt32) : (word >>> 8).toNat = word.toNat / 256 :=
  (UInt32.toNat_shiftRight _ _).trans (Nat.shiftRight_eq_div_pow _ 8)

theorem replacement?_eq_some :
    replacement? threshold word = some byte ↔
      word.toNat / 256 < threshold ∧ word.toNat % 256 = byte.toNat := by
  rw [replacement?, toNat_shiftRight_eight, ← UInt32.toNat_toUInt8, UInt8.toNat_inj]
  split <;> simp_all

/-- **More chances keep what was written with fewer.** -/
theorem replacement?_mono {threshold' : Nat} (h : threshold ≤ threshold')
    (hword : replacement? threshold word = some byte) :
    replacement? threshold' word = some byte := by
  rw [replacement?_eq_some] at hword ⊢
  exact ⟨hword.1.trans_le h, hword.2⟩

/-! ## How many words write -/

/-- There are as many words as numbers that they are listed by. -/
theorem ncard_words {n : ℕ} {number : ℕ → ℕ} (hlt : ∀ i < n, number i < 2 ^ 32)
    (hinj : Function.Injective number) :
    {word : UInt32 | ∃ i < n, word.toNat = number i}.ncard = n := by
  have hvalue : ∀ i < n, (UInt32.ofNat (number i)).toNat = number i :=
    fun i hi => UInt32.toNat_ofNat_of_lt' (hlt i hi)
  have himage : {word : UInt32 | ∃ i < n, word.toNat = number i}
      = (fun i => UInt32.ofNat (number i)) '' (Finset.range n : Set ℕ) := by
    ext word
    constructor
    · rintro ⟨i, hi, hword⟩
      exact ⟨i, Finset.mem_coe.mpr (Finset.mem_range.mpr hi),
        UInt32.toNat_inj.mp ((hvalue i hi).trans hword.symm)⟩
    · rintro ⟨i, hi, rfl⟩
      have hi := Finset.mem_range.mp (Finset.mem_coe.mp hi)
      exact ⟨i, hi, hvalue i hi⟩
  have himageInj : Set.InjOn (fun i => UInt32.ofNat (number i)) (Finset.range n : Set ℕ) := by
    intro i hi j hj hij
    have hsame := congrArg UInt32.toNat hij
    rw [hvalue i (Finset.mem_range.mp (Finset.mem_coe.mp hi)),
      hvalue j (Finset.mem_range.mp (Finset.mem_coe.mp hj))] at hsame
    exact hinj hsame
  rw [himage, himageInj.ncard_image, Set.ncard_coe_finset, Finset.card_range]

/-- **Every byte is written by as many words as there are chances.** -/
theorem ncard_writing (h : threshold ≤ 2 ^ 24) (byte : UInt8) :
    {word | WordActs threshold word (some byte)}.ncard = threshold := by
  have hbyte := byte.toNat_lt
  have hwords : {word | WordActs threshold word (some byte)}
      = {word | ∃ chance < threshold, word.toNat = 256 * chance + byte.toNat} := by
    ext word
    refine wordActs_iff.trans (replacement?_eq_some.trans ⟨?_, ?_⟩)
    · rintro ⟨hlt, hmod⟩
      exact ⟨word.toNat / 256, hlt, by omega⟩
    · rintro ⟨chance, hlt, hword⟩
      omega
  rw [hwords]
  exact ncard_words (fun chance hchance => by omega) fun i j hij => by
    change 256 * i + byte.toNat = 256 * j + byte.toNat at hij
    omega

/-- **There are as many words that write as chances for all bytes together.** -/
theorem ncard_writing_any (h : threshold ≤ 2 ^ 24) :
    {word | ∃ byte, WordActs threshold word (some byte)}.ncard = 256 * threshold := by
  have hwords : {word | ∃ byte, WordActs threshold word (some byte)}
      = {word | ∃ i < 256 * threshold, word.toNat = i} := by
    ext word
    simp only [Set.mem_ofPred_eq, wordActs_iff, replacement?_eq_some, exists_eq_right']
    constructor
    · rintro ⟨byte, hlt, -⟩
      omega
    · intro hlt
      refine ⟨word.toUInt8, by omega, ?_⟩
      rw [UInt32.toNat_toUInt8]
  rw [hwords]
  exact ncard_words (fun i hi => by omega) fun i j hij => hij

/-- **A soup mutates at its rate.**  What is no number, or not above zero, gives no chances, one and
more gives all `2 ^ 24` of them, and in between the chances are the nearest whole number, a half
up, and never all; a higher rate never has fewer.  Every one of the `2 ^ 32` words can be drawn and
always does the same to a byte: each byte is written by as many words as there are chances. -/
theorem mutates_at_rate (rate : Single) :
    let chances := mutationThreshold rate
    (rate.number? = none → chances = 0) ∧
      (∀ x, rate.number? = some x → (x ≤ 0 → chances = 0) ∧ (1 ≤ x → chances = 2 ^ 24) ∧
        ∀ (higher : Single) y, higher.number? = some y → x ≤ y →
          chances ≤ mutationThreshold higher) ∧
      (∀ q : ℚ, rate.number? = some (q : WithTop ℚ) → 0 < q → q < 1 → chances < 2 ^ 24 ∧
        |(chances : ℚ) - q * 2 ^ 24| ≤ 1 / 2 ∧
        ∀ n : ℕ, q * 2 ^ 24 = n + 1 / 2 → chances = n + 1) ∧
      (∀ word, (∃ s : Stream, s.output = word) ∧ ∃ written, WordActs chances word written) ∧
      (∀ byte, {word | WordActs chances word (some byte)}.ncard = chances) ∧
      {word | ∃ byte, WordActs chances word (some byte)}.ncard = 256 * chances := by
  intro chances
  have hchances : chances = rate.number?.elim 0 chancesAt := mutationThreshold_eq_chancesAt rate
  have hle : chances ≤ 2 ^ 24 := mutationThreshold_le rate
  refine ⟨fun h => by rw [hchances, h, Option.elim_none], fun x h => ⟨fun hx => ?_, fun hx => ?_,
    fun higher y hy hxy => mutationThreshold_mono h hy hxy⟩, fun q h hpos hlt =>
    ⟨mutationThreshold_lt_scale h (Extended.coe_lt_coe.mpr hlt), mutationThreshold_near h hpos hlt⟩,
    fun word => ⟨Stream.output_surjective word, _, wordActs_replacement chances word⟩,
    ncard_writing hle, ncard_writing_any hle⟩
  · rw [h] at hchances
    exact hchances.trans (chancesAt_of_nonpos hx)
  · rw [h] at hchances
    exact hchances.trans (chancesAt_of_one_le hx)

/-- The rate `2 ^ -25` is half a chance, and one word in `2 ^ 32` writes a seven. -/
theorem mutates_at_rate_half_chance :
    let rate : Single := ⟨0x33000000⟩
    let q : ℚ := 1 / 2 ^ 25
    rate.number? = some (q : WithTop ℚ) ∧ 0 < q ∧ q < 1 ∧ mutationThreshold rate = 0 + 1 ∧
      {word | WordActs (mutationThreshold rate) word (some 7)}.ncard = 0 + 1 := by
  intro rate q
  have hvalue : rate.value = .finite false 0x800000 (-48) := by decide
  have hnumber : rate.number? = some (q : WithTop ℚ) := by
    rw [Single.number?, hvalue, Binary.number?, Binary.rational_false]
    norm_num [q]
  have hpos : 0 < q := by norm_num [q]
  have hlt : q < 1 := by norm_num [q]
  obtain ⟨-, -, hnear, -, hwriting, -⟩ := mutates_at_rate rate
  have hone : mutationThreshold rate = 0 + 1 :=
    (hnear q hnumber hpos hlt).2.2 0 (by norm_num [q])
  exact ⟨hnumber, hpos, hlt, hone, (hwriting 7).trans hone⟩

/-! ## Whole passes -/

variable {threshold' : Nat} {bytes : List UInt8} {s : Stream} {i : Nat}

/-- **A pass can be cut in two anywhere**: the second part goes on with the stream of the first. -/
theorem mutate_append (threshold : Nat) (first second : List UInt8) (s : Stream) :
    let before := mutate threshold first s
    let after := mutate threshold second before.stream
    mutate threshold (first ++ second) s
      = ⟨before.bytes ++ after.bytes, after.stream, before.count + after.count⟩ := by
  induction first generalizing s with
  | nil => simp [mutate]
  | cons byte first ih =>
    have hword := wordActs_replacement threshold s.output s rfl byte
    simp only [List.cons_append, hword, ih, Nat.add_right_comm]

/-- **What becomes of a byte** is up to the word that is drawn for it. -/
theorem getElem?_bytes_mutate (threshold : Nat) (bytes : List UInt8) (s : Stream) (i : Nat) :
    (mutate threshold bytes s).bytes[i]?
      = bytes[i]?.map (replacement? threshold (s.advance i).output).getD := by
  induction bytes generalizing s i with
  | nil => rfl
  | cons byte bytes ih =>
    rw [wordActs_replacement threshold s.output s rfl byte bytes]
    cases i with
    | zero => rfl
    | succ i => exact ih s.step i

theorem count_mutate (threshold : Nat) (bytes : List UInt8) (s : Stream) :
    (mutate threshold bytes s).count
      = (s.words bytes.length).countP fun word => (replacement? threshold word).isSome := by
  induction bytes generalizing s with
  | nil => rfl
  | cons byte bytes ih =>
    rw [wordActs_replacement threshold s.output s rfl byte bytes, List.length_cons, Stream.words,
      List.countP_cons, ← ih]
    cases (replacement? threshold s.output).isSome <;> rfl

/-- Whether a pass replaces the byte at a place: once it has been there it has counted one more. -/
def ReplacesAt (threshold : Nat) (bytes : List UInt8) (s : Stream) (i : Nat) : Prop :=
  (mutate threshold (bytes.take (i + 1)) s).count = (mutate threshold (bytes.take i) s).count + 1

theorem replacesAt_iff : ReplacesAt threshold bytes s i ↔
    i < bytes.length ∧ ∃ byte, replacement? threshold (s.advance i).output = some byte := by
  rw [ReplacesAt, List.take_add_one, mutate_append, stream_mutate]
  rcases Nat.lt_or_ge i bytes.length with hi | hi
  · rw [List.getElem?_eq_getElem hi, List.length_take, Nat.min_eq_left hi.le, Option.toList_some,
      wordActs_replacement threshold (s.advance i).output _ rfl]
    cases replacement? threshold (s.advance i).output <;> simp [mutate, hi]
  · rw [List.getElem?_eq_none hi]
    simp [mutate, hi]

/-- **A byte that is replaced is replaced with more chances too**, and then by the same one. -/
theorem ReplacesAt.getElem?_bytes (h : ReplacesAt threshold bytes s i)
    (hle : threshold ≤ threshold') : ReplacesAt threshold' bytes s i ∧
      (mutate threshold' bytes s).bytes[i]? = some (s.advance i).output.toUInt8 := by
  obtain ⟨hlt, byte, hbyte⟩ := replacesAt_iff.mp h
  have hmore := replacement?_mono hle hbyte
  have hlow : (s.advance i).output.toUInt8 = byte := by
    rw [← UInt8.toNat_inj, UInt32.toNat_toUInt8, (replacement?_eq_some.mp hbyte).2]
  refine ⟨replacesAt_iff.mpr ⟨hlt, byte, hmore⟩, ?_⟩
  rw [getElem?_bytes_mutate, hmore, List.getElem?_eq_getElem hlt, hlow]
  rfl

/-- A byte that is not replaced is kept. -/
theorem getElem?_bytes_of_not_replacesAt (h : ¬ ReplacesAt threshold bytes s i) :
    (mutate threshold bytes s).bytes[i]? = bytes[i]? := by
  rw [getElem?_bytes_mutate]
  rcases Nat.lt_or_ge i bytes.length with hlt | hge
  · have hkept : replacement? threshold (s.advance i).output = none :=
      Option.eq_none_iff_forall_ne_some.mpr fun byte hbyte =>
        h (replacesAt_iff.mpr ⟨hlt, byte, hbyte⟩)
    rw [hkept, List.getElem?_eq_getElem hlt]
    rfl
  · rw [List.getElem?_eq_none hge]
    rfl

/-- **More chances count at least as many replacements.** -/
theorem count_mutate_mono (h : threshold ≤ threshold') (bytes : List UInt8) (s : Stream) :
    (mutate threshold bytes s).count ≤ (mutate threshold' bytes s).count := by
  rw [count_mutate, count_mutate]
  refine List.countP_mono_left fun word _ hword => ?_
  obtain ⟨byte, hbyte⟩ := Option.isSome_iff_exists.mp hword
  exact Option.isSome_iff_exists.mpr ⟨byte, replacement?_mono h hbyte⟩

/-- **Raising the rate only adds replacements.**  Passes over the same bytes with the same stream
take one word for every byte at either rate.  What is replaced at the lower rate is replaced at the
higher one and by the same byte, what is not replaced at the higher one is kept at both, and the
higher rate counts at least as many.  A pass at any rate over two tapes in a row is a pass over the
first and then one over the second with the stream that is left. -/
theorem raising_rate_adds {rate higher : Single} {x y : Extended} (hx : rate.number? = some x)
    (hy : higher.number? = some y) (hxy : x ≤ y) (bytes : List UInt8) (s : Stream) :
    let chances := mutationThreshold rate
    let more := mutationThreshold higher
    let low := mutate chances bytes s
    let high := mutate more bytes s
    (low.stream = s.advance bytes.length ∧ high.stream = s.advance bytes.length) ∧
      (∀ i, ReplacesAt chances bytes s i → ReplacesAt more bytes s i ∧
        ∃ byte, low.bytes[i]? = some byte ∧ high.bytes[i]? = some byte) ∧
      (∀ i, ¬ ReplacesAt more bytes s i →
        low.bytes[i]? = bytes[i]? ∧ high.bytes[i]? = bytes[i]?) ∧
      low.count ≤ high.count ∧
      ∀ (rate : Single) (first second : List UInt8) (s : Stream),
        let before := mutate (mutationThreshold rate) first s
        let after := mutate (mutationThreshold rate) second before.stream
        mutate (mutationThreshold rate) (first ++ second) s
          = ⟨before.bytes ++ after.bytes, after.stream, before.count + after.count⟩ := by
  intro chances more low high
  have hle : chances ≤ more := mutationThreshold_mono hx hy hxy
  refine ⟨⟨stream_mutate .., stream_mutate ..⟩, fun i hi => ?_, fun i hi => ?_,
    count_mutate_mono hle bytes s, fun rate => mutate_append (mutationThreshold rate)⟩
  · obtain ⟨-, hlow⟩ := hi.getElem?_bytes (Nat.le_refl chances)
    obtain ⟨hmore, hhigh⟩ := hi.getElem?_bytes hle
    exact ⟨hmore, _, hlow, hhigh⟩
  · exact ⟨getElem?_bytes_of_not_replacesAt fun h => hi (h.getElem?_bytes hle).1,
      getElem?_bytes_of_not_replacesAt hi⟩

/-- At a rate of about one fortieth the first of three bytes is replaced, so it is at rate one. -/
theorem raising_rate_adds_three_bytes :
    let rate : Single := ⟨0x3cc49ba6⟩
    let higher : Single := ⟨0x3f800000⟩
    let x : ℚ := 12884902 / 2 ^ 29
    let low := mutate (mutationThreshold rate) [1, 2, 3] ⟨5⟩
    let high := mutate (mutationThreshold higher) [1, 2, 3] ⟨5⟩
    rate.number? = some (x : WithTop ℚ) ∧ higher.number? = some ((1 : ℚ) : WithTop ℚ) ∧
      ((x : WithTop ℚ) : Extended) ≤ ((1 : ℚ) : WithTop ℚ) ∧
      ReplacesAt (mutationThreshold rate) [1, 2, 3] ⟨5⟩ 0 ∧
      ReplacesAt (mutationThreshold higher) [1, 2, 3] ⟨5⟩ 0 ∧
      (∃ byte, low.bytes[0]? = some byte ∧ high.bytes[0]? = some byte) ∧
      high.stream = Stream.advance 3 ⟨5⟩ ∧ low.count ≤ high.count := by
  intro rate higher x low high
  have hvalue : rate.value = .finite false 12884902 (-29) := by decide
  have hvalue' : higher.value = .finite false 0x800000 (-23) := by decide
  have hx : rate.number? = some (x : WithTop ℚ) := by
    rw [Single.number?, hvalue, Binary.number?, Binary.rational_false]
    norm_num [x]
  have hy : higher.number? = some ((1 : ℚ) : WithTop ℚ) := by
    rw [Single.number?, hvalue', Binary.number?, Binary.rational_false]
    norm_num
  have hxy : ((x : WithTop ℚ) : Extended) ≤ ((1 : ℚ) : WithTop ℚ) :=
    Extended.coe_le_coe.mpr (by norm_num [x])
  have hlow : ReplacesAt (mutationThreshold rate) [1, 2, 3] ⟨5⟩ 0 := by
    unfold ReplacesAt
    decide
  obtain ⟨⟨-, hstream⟩, hreplaced, -, hcount, -⟩ := raising_rate_adds hx hy hxy [1, 2, 3] ⟨5⟩
  exact ⟨hx, hy, hxy, hlow, (hreplaced 0 hlow).1, (hreplaced 0 hlow).2, hstream, hcount⟩

end TapeLife
