import TapeLife.Proofs.Bytes.LittleEndian
import TapeLife.Proofs.Random.Mix

/-!
# Proofs/Random/Filling — a stream of words is a stream of bytes

    words    w₀           w₁           w₂
    bytes    0  1  2  3   4  5  6  7   8  9  …        byte i is byte i % 4 of word i / 4
    fill 6   ─────────────────▸                       the rest of w₁ is lost

A stream has a byte of every number (`Stream.byteAt`), and behind whole words they are the bytes of
the stream that follows those words (`byteAt_four_mul_add`).  Filling takes the first of them and
stops at a word (`fst_fill`, `snd_fill`), so what it gives does not depend on how much more is
filled, or on how it is divided, as long as the parts are whole words (`fill_add`).
-/

namespace TapeLife

namespace Stream

/-! ## The bytes of a stream -/

/-- A byte of a stream by its number: four to a word, the least significant one first. -/
def byteAt (s : Stream) (i : ℕ) : UInt8 :=
  UInt8.ofNat ((s.advance (i / 4)).output.toNat / 256 ^ (i % 4))

/-- **Behind whole words the bytes are those of the stream that follows.** -/
theorem byteAt_four_mul_add (s : Stream) (k i : ℕ) :
    s.byteAt (4 * k + i) = (s.advance k).byteAt i := by
  rw [byteAt, byteAt, Nat.mul_add_div (by decide), Nat.mul_add_mod, advance_add]

theorem map_byteAt_range_add (s : Stream) (k n : ℕ) :
    (List.range (4 * k + n)).map s.byteAt
      = (List.range (4 * k)).map s.byteAt ++ (List.range n).map (s.advance k).byteAt := by
  have hbehind : (s.byteAt ∘ fun i => 4 * k + i) = (s.advance k).byteAt :=
    funext (byteAt_four_mul_add s k)
  rw [List.range_add, List.map_append, List.map_map, hbehind]

theorem bytesOf_output (s : Stream) : bytesOf s.output = (List.range 4).map s.byteAt := by
  rw [bytesOf, littleEndian_eq_map]
  refine List.map_congr_left fun i hi => ?_
  have hlt := List.mem_range.mp hi
  rw [byteAt, Nat.div_eq_of_lt hlt, Nat.mod_eq_of_lt hlt, advance]

/-! ## Filling -/

/-- **Filling gives the first bytes of the stream.** -/
theorem fst_fill (n : ℕ) (s : Stream) : (s.fill n).1 = (List.range n).map s.byteAt := by
  fun_induction fill n s with
  | case1 => rfl
  | case2 n s rest ih =>
    change bytesOf s.output ++ rest.1 = (List.range (n + 4)).map s.byteAt
    rw [Nat.add_comm n 4, map_byteAt_range_add s 1 n, bytesOf_output]
    exact congrArg _ ih
  | case3 n s h0 h4 =>
    have hlt : n < 4 := Nat.lt_of_not_le fun h => h4 (n - 4) (by omega)
    rw [bytesOf_output, ← List.map_take, List.take_range, Nat.min_eq_left hlt.le]

/-- **Filling draws as many words as it needs**: a word for every four bytes, and one for what is
left over. -/
theorem snd_fill (n : ℕ) (s : Stream) : (s.fill n).2 = s.advance ((n + 3) / 4) := by
  fun_induction fill n s with
  | case1 => rfl
  | case2 n s rest ih =>
    have hmore : (n + 4 + 3) / 4 = (n + 3) / 4 + 1 := by omega
    rw [hmore, advance]
    exact ih
  | case3 n s h0 h4 =>
    have hlt : n < 4 := Nat.lt_of_not_le fun h => h4 (n - 4) (by omega)
    have hpos : n ≠ 0 := h0
    have hone : (n + 3) / 4 = 1 := by omega
    rw [hone]
    rfl

theorem getElem?_fst_fill {i n : ℕ} (hi : i < n) (s : Stream) :
    (s.fill n).1[i]? = some (s.byteAt i) := by
  rw [fst_fill, List.getElem?_map, List.getElem?_range hi, Option.map_some]

/-- Filling more begins with the same bytes. -/
theorem fst_fill_isPrefix {m n : ℕ} (h : m ≤ n) (s : Stream) : (s.fill m).1 <+: (s.fill n).1 := by
  obtain ⟨d, rfl⟩ := Nat.exists_eq_add_of_le h
  rw [fst_fill, fst_fill, List.range_add, List.map_append]
  exact List.prefix_append _ _

/-- **Whole words first, and then the rest**: filling in two parts is filling at once. -/
theorem fill_add {a : ℕ} (h : 4 ∣ a) (b : ℕ) (s : Stream) :
    let first := s.fill a
    let rest := first.2.fill b
    s.fill (a + b) = (first.1 ++ rest.1, rest.2) := by
  obtain ⟨k, rfl⟩ := h
  intro first rest
  have hwhole : (4 * k + 3) / 4 = k := by omega
  have hmore : (4 * k + b + 3) / 4 = k + (b + 3) / 4 := by omega
  have hstop : first.2 = s.advance k := by rw [snd_fill, hwhole]
  refine Prod.ext ?_ ?_
  · rw [fst_fill, map_byteAt_range_add, fst_fill, fst_fill, hstop]
  · rw [snd_fill, snd_fill, hstop, hmore, advance_add]

/-- A wide word has the bytes of its two halves. -/
theorem toNat_fst_wide (s : Stream) : s.wide.1.toNat = ofLittleEndian (s.fill 8).1 := by
  have hfill : (s.fill 8).1 = bytesOf s.output ++ bytesOf s.step.output := rfl
  have hsize : 256 ^ (bytesOf s.output).length = 2 ^ 32 := by rw [length_bytesOf]; rfl
  rw [hfill, ofLittleEndian_append, hsize, bytesOf, bytesOf, ofLittleEndian_word,
    ofLittleEndian_word, wide, toNat_packHalves, Nat.add_comm]

/-- **Filling shows the words of a stream as they are.**  Byte `i` is byte `i % 4`, counted from the
least significant one, of the word that is drawn after `i / 4` others; a word is drawn for every four
bytes and for what is left over, and neither more nor less than that.  So filling less gives the
beginning of what filling more gives; filling in two parts, the first of them whole words, gives the
bytes and the stream of filling at once; and a wide word is the number with the bytes of eight that
are filled. -/
theorem fill_shows_words (s : Stream) :
    (∀ n, (s.fill n).1.length = n ∧
      (∀ i < n, (s.fill n).1[i]?
        = some (UInt8.ofNat ((s.advance (i / 4)).output.toNat / 256 ^ (i % 4)))) ∧
      (s.fill n).2 = s.advance ((n + 3) / 4) ∧
      ∀ k, (s.fill n).2 = s.advance k → k ≡ (n + 3) / 4 [MOD 2 ^ 64]) ∧
    (∀ m n, m ≤ n → (s.fill m).1 <+: (s.fill n).1) ∧
    (∀ a b, 4 ∣ a →
      let first := s.fill a
      let rest := first.2.fill b
      s.fill (a + b) = (first.1 ++ rest.1, rest.2)) ∧
    s.wide.1.toNat = ofLittleEndian (s.fill 8).1 ∧ s.wide.2 = (s.fill 8).2 := by
  refine ⟨fun n => ⟨length_fill n s, fun i hi => getElem?_fst_fill hi s, snd_fill n s,
    fun k hk => ?_⟩, fun m n h => fst_fill_isPrefix h s, fun a b h => fill_add h b s,
    toNat_fst_wide s, rfl⟩
  rw [snd_fill, advance_eq_advance_iff] at hk
  exact hk.symm

/-- Six bytes, of which the last two are from a second word: `0x3eeae017`, of which the rest is
lost. -/
theorem fill_shows_words_six :
    let s : Stream := ⟨0x853c49e6748fea9b⟩
    (5 < 6 ∧ 6 ≤ 11 ∧ 4 ∣ 8 ∧ (s.fill 6).2 = s.advance 2) ∧
      (s.advance (5 / 4)).output = 0x3eeae017 ∧ (s.fill 6).1[5]? = some 0xe0 ∧
      (s.fill 6).1 <+: (s.fill 11).1 ∧
      s.fill 11 = ((s.fill 8).1 ++ ((s.fill 8).2.fill 3).1, ((s.fill 8).2.fill 3).2) ∧
      2 ≡ (6 + 3) / 4 [MOD 2 ^ 64] ∧
      s.wide.1.toNat = ofLittleEndian (s.fill 8).1 := by
  intro s
  obtain ⟨hfill, hbegins, hparts, hwide, -⟩ := fill_shows_words s
  obtain ⟨-, hbyte, hstop, hdraws⟩ := hfill 6
  have hword : (s.advance (5 / 4)).output = 0x3eeae017 := by decide
  have hfifth : (s.fill 6).1[5]? = some 0xe0 := by
    rw [hbyte 5 (by decide), hword]
    rfl
  exact ⟨⟨by decide, by decide, by decide, hstop⟩, hword, hfifth, hbegins 6 11 (by decide),
    hparts 8 3 (by decide), hdraws 2 hstop, hwide⟩

/-- Two bytes in two parts are of two words. -/
example : let s : Stream := ⟨0x853c49e6748fea9b⟩
    (s.fill 1).1 ++ ((s.fill 1).2.fill 1).1 = [0x8d, 0x17] ∧ (s.fill 2).1 = [0x8d, 0xa7] := by
  decide

end Stream

end TapeLife
