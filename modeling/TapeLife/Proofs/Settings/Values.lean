import TapeLife.Proofs.Decimal.Text
import TapeLife.Proofs.Yaml.Document
import TapeLife.Settings.Reading
import TapeLife.Settings.Writing

/-!
# Proofs/Settings/Values — every kind of value is read back from its text

    UInt32, UInt64, Int32 ──digits──▸ text ──▸ node ──whole?──▸ the same number
    Single ──shortest──▸ text ──▸ node ──double?──▸ the same rate, but for one
    Bool, Fill ──word──▸ text        String ──with or without quotes──▸ text

Numbers and words are plain text (`isPlainText_signed`), and the readers of the fields get the
numbers back from it.
-/

namespace TapeLife

open Yaml (Node)

/-! ## Whole numbers -/

/-- Digits do not begin with a zero, unless the number is zero. -/
theorem head?_digits {n : ℕ} (hn : n ≠ 0) : (digits n).head? ≠ some '0' := by
  rw [digits]
  induction n using Nat.strongRecOn with
  | ind n ih =>
    rw [Nat.toDigits_eq_if (by decide)]
    split
    · simpa using hn
    · obtain ⟨c, cs, hcs⟩ := List.exists_cons_of_ne_nil (@Nat.toDigits_ne_nil (n / 10) 10)
      have hhead := ih (n / 10) (by omega) (by omega)
      rw [hcs] at hhead ⊢
      simpa using hhead

namespace Yaml

theorem digitValue?_of_isDecimalDigit {c : Char} (hc : isDecimalDigit c = true) :
    digitValue? c = some (c.toNat - 48) ∧ c.toNat - 48 < 10 := by
  rw [isDecimalDigit] at hc
  refine ⟨by rw [digitValue?, if_pos hc], ?_⟩
  simp only [Bool.and_eq_true, decide_eq_true_eq, Char.le_def, UInt32.le_iff_toNat_le] at hc
  have hnine : ('9' : Char).val.toNat = 57 := by decide
  change c.val.toNat - 48 < 10
  omega

/-- Digits are read as the number they stand for. -/
theorem radix?_ten {cs : List Char} (hne : cs ≠ []) (h : ∀ c ∈ cs, isDecimalDigit c = true) :
    radix? 10 cs = some (Nat.ofDigitChars 10 cs 0) := by
  rw [radix?, if_neg hne]
  clear hne
  generalize 0 = start
  induction cs generalizing start with
  | nil => rfl
  | cons c cs ih =>
    obtain ⟨hc, hcs⟩ := List.forall_mem_cons.mp h
    obtain ⟨hvalue, hlt⟩ := digitValue?_of_isDecimalDigit hc
    have hstep : (do
        let sum ← some start
        let digit ← digitValue? c
        if digit < 10 then some (sum * 10 + digit) else none) = some (10 * start + (c.toNat - 48)) := by
      simp [hvalue, hlt, Nat.mul_comm]
    rw [List.foldl_cons, hstep, ih hcs, Nat.ofDigitChars_cons]
    rfl

/-- **A number is read back from its digits**, which have no leading zero. -/
theorem magnitude?_digits (n : ℕ) : magnitude? (digits n) = some n := by
  have hdigits : ∀ c ∈ digits n, isDecimalDigit c = true := fun c hc => isDecimalDigit_of_mem_digits hc
  have hne : digits n ≠ [] := Nat.toDigits_ne_nil
  have hread := radix?_ten hne hdigits
  rw [Decimal.ofDigitChars_digits] at hread
  have hpadded : isPaddedDigits (digits n) = false := by
    rcases Nat.eq_zero_or_pos n with rfl | hpos
    · decide
    · have hhead := head?_digits hpos.ne'
      obtain ⟨c, cs, hcs⟩ := List.exists_cons_of_ne_nil hne
      have hc := hdigits c (by simp [hcs])
      have hplus := ne_of_isDecimalDigit hc (by decide : isDecimalDigit '+' = false)
      have hminus := ne_of_isDecimalDigit hc (by decide : isDecimalDigit '-' = false)
      have hzero : c ≠ '0' := fun heq => hhead (by simp [hcs, heq])
      simp [isPaddedDigits, hcs, startsSigned, hplus, hminus, hzero]
  have hbase (mark : Char) (hmark : isDecimalDigit mark = false) (rest : List Char) :
      digits n ≠ '0' :: mark :: rest := fun heq =>
    ne_of_isDecimalDigit (hdigits mark (by simp [heq])) hmark rfl
  rw [magnitude?.eq_def]
  split
  · exact absurd ‹_› (hbase 'x' (by decide) _)
  · exact absurd ‹_› (hbase 'o' (by decide) _)
  · exact absurd ‹_› (hbase 'b' (by decide) _)
  · rw [hpadded, if_neg (by decide), hread]

theorem natural?_digits (n : ℕ) : natural? (digits n) = some n := by
  rw [natural?]
  · exact magnitude?_digits n
  · exact digits_ne_cons (by decide) n

/-- A whole number is read back with its sign. -/
theorem whole?_signed (n : ℤ) :
    whole? (signed (n < 0) (decimalText n.natAbs)).toList = some n := by
  by_cases hneg : n < 0
  · have htext : (signed (n < 0) (decimalText n.natAbs)).toList = '-' :: digits n.natAbs := by
      simp [signed, hneg, decimalText]
    rw [htext, whole?, magnitude?_digits]
    change some (-(n.natAbs : ℤ)) = some n
    exact congrArg some (by omega)
  · have htext : (signed (n < 0) (decimalText n.natAbs)).toList = digits n.natAbs := by
      simp [signed, hneg, decimalText]
    rw [htext, whole?, natural?_digits]
    · change some (n.natAbs : ℤ) = some n
      exact congrArg some (by omega)
    · exact digits_ne_cons (by decide) n.natAbs

end Yaml

/-! ## Readers -/

section Readers

variable (name : String)

/-- Text as it is read if it is written without quotes. -/
def plainNode (text : String) : Node := .scalar true text

theorem readWord_wordText (n : UInt32) : readWord name (plainNode (wordText n)) = .ok n := by
  have hlt : n.toNat < UInt32.size := n.toNat_lt
  simp [readWord, readPlain, plainNode, wordText, decimalText, Yaml.natural?_digits, hlt]

theorem readWide_decimalText (n : UInt64) :
    readWide name (plainNode (decimalText n.toNat)) = .ok n := by
  have hlt : n.toNat < UInt64.size := n.toNat_lt
  simp [readWide, readPlain, plainNode, decimalText, Yaml.natural?_digits, hlt]

theorem readInt32_int32Text (n : Int32) : readInt32 name (plainNode (int32Text n)) = .ok n := by
  have hlow : Int32.minValue.toInt ≤ n.toInt := n.minValue_le_toInt
  have hhigh : n.toInt ≤ Int32.maxValue.toInt := n.toInt_le
  simp only [readInt32, readPlain, plainNode, int32Text, Yaml.whole?_signed, Option.bind_some,
    if_pos (And.intro hlow hhigh), Int32.ofInt_toInt]

theorem readBool_boolText (b : Bool) : readBool name (plainNode (Yaml.boolText b)) = .ok b := by
  cases b <;> rfl

theorem readFill_text (fill : Fill) : readFill name (plainNode fill.text) = .ok fill := by
  cases fill <;> rfl

theorem readRate_render {x y : Single}
    (h : (Yaml.double? (Yaml.numberStyle.render x).toList).map Single.ofBinary = some y) :
    readRate name (plainNode (Yaml.numberStyle.render x)) = .ok y := by
  simp [readRate, readPlain, plainNode, h]

end Readers

/-! ## Texts -/

namespace Yaml

theorem isWordChar_of_isNumeral {cs : List Char} (h : Decimal.IsNumeral cs) :
    ∀ c ∈ cs, isWordChar c = true := fun c hc => by
  obtain hdigit | hmark := h.mem c hc
  · simp [isWordChar, hdigit]
  · simp only [List.mem_cons, List.not_mem_nil, or_false] at hmark
    obtain rfl | rfl | rfl := hmark <;> decide

/-- **A number needs no quotes**, with or without a minus sign. -/
theorem isPlainText_signed {text : String} (h : Decimal.IsNumeral text.toList) (negative : Bool) :
    IsPlainText (signed negative text).toList := by
  obtain ⟨c, hc, hdigit⟩ := h.head
  have hword := isWordChar_of_isNumeral h
  have hne (mark : Char) (hmark : isDecimalDigit mark = false) : c ≠ mark :=
    ne_of_isDecimalDigit hdigit hmark
  cases negative with
  | false =>
    have hhead (mark : Char) (hmark : isDecimalDigit mark = false) : text.toList.head? ≠ some mark :=
      fun heq => hne mark hmark (Option.some.inj ((Option.mem_def.mp hc).symm.trans heq))
    refine isPlainText_of_isWordChar (fun hnil => ?_) hword (hhead '.' (by decide))
      fun heq => absurd heq (hhead '-' (by decide))
    rw [signed, if_neg (by decide)] at hnil
    rw [hnil] at hc
    cases hc
  | true =>
    have htext : (signed true text).toList = '-' :: text.toList := by simp [signed]
    rw [htext]
    exact isPlainText_of_isWordChar (by simp) (List.forall_mem_cons.mpr ⟨by decide, hword⟩) (by simp)
      fun _ => ⟨c, hc, hne '-' (by decide)⟩

theorem isNumeral_decimalText (n : ℕ) : Decimal.IsNumeral (decimalText n).toList := by
  rw [decimalText, String.toList_ofList]
  exact Decimal.isNumeral_digits n

theorem readsAs_plain {text : String} (h : IsPlainText text.toList) :
    ReadsAs text.toList (plainNode text) := by
  simpa [plainNode] using h.isScalarText.readsAs

theorem readsAs_decimalText (n : ℕ) : ReadsAs (decimalText n).toList (plainNode (decimalText n)) :=
  readsAs_plain (isPlainText_signed (isNumeral_decimalText n) false)

theorem readsAs_wordText (n : UInt32) : ReadsAs (wordText n).toList (plainNode (wordText n)) :=
  readsAs_decimalText n.toNat

theorem readsAs_int32Text (n : Int32) : ReadsAs (int32Text n).toList (plainNode (int32Text n)) :=
  readsAs_plain (isPlainText_signed (isNumeral_decimalText _) _)

theorem readsAs_boolText (b : Bool) : ReadsAs (boolText b).toList (plainNode (boolText b)) := by
  refine readsAs_plain ?_
  cases b <;>
    exact isPlainText_of_isWordChar (by decide) (List.all_eq_true.mp (by decide)) (by decide)
      (fun h => absurd h (by decide))

theorem readsAs_fillText (fill : Fill) : ReadsAs fill.text.toList (plainNode fill.text) := by
  refine readsAs_plain ?_
  cases fill <;>
    exact isPlainText_of_isWordChar (by decide) (List.all_eq_true.mp (by decide)) (by decide)
      (fun h => absurd h (by decide))

/-- A rate between zero and one is written as a number. -/
theorem readsAs_render {x : Single} (hx : x.isFraction = true) :
    ReadsAs (numberStyle.render x).toList (plainNode (numberStyle.render x)) := by
  refine readsAs_plain ?_
  have hfinite : ∃ negative mantissa exponent, x.value = .finite negative mantissa exponent := by
    rcases Single.fraction_cases hx with ⟨negative, exponent, h⟩ | ⟨mantissa, exponent, h, -⟩
    · exact ⟨negative, 0, exponent, h⟩
    · exact ⟨false, mantissa, exponent, h⟩
  obtain ⟨negative, mantissa, exponent, hvalue⟩ := hfinite
  rw [NumberStyle.render, hvalue]
  split
  · rename_i heq
    cases heq
  · rename_i heq
    cases heq
  · exact isPlainText_signed (Decimal.isNumeral_layout _) _
  · exact isPlainText_signed (Decimal.isNumeral_layout _) _

end Yaml

end TapeLife
