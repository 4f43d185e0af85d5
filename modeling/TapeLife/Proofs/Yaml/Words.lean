import TapeLife.Proofs.Yaml.Plain

/-!
# Proofs/Yaml/Words — keys, numbers and words need no quotes

    background_mutation_rate: 7.038531e-26
    └──────────────────────┘  └──────────┘

Keys, numbers, truth values and the names of fillings are made of a few characters, none of which is
a mark between others (`isPlainText_of_isWordChar`).
-/

namespace TapeLife.Yaml

/-- The characters of keys, of numbers and of words that stand for something. -/
def isWordChar (c : Char) : Bool :=
  ('a' ≤ c && c ≤ 'z') || isDecimalDigit c || c == '_' || c == '.' || c == '-'

section Word

variable {c : Char} {cs : List Char}

theorem ne_of_isWordChar (hc : isWordChar c = true) {mark : Char} (hmark : isWordChar mark = false) :
    c ≠ mark := by
  rintro rfl
  rw [hc] at hmark
  cases hmark

theorem isPrintable_of_isWordChar (hc : isWordChar c = true) : isPrintable c = true := by
  have hrange {low high : Char} (hlow : ' ' ≤ low) (hhigh : high ≤ '~') (h : low ≤ c ∧ c ≤ high) :
      isPrintable c = true := by
    simp [isPrintable, Char.le_trans hlow h.1, Char.le_trans h.2 hhigh]
  simp only [isWordChar, isDecimalDigit, Bool.or_eq_true, Bool.and_eq_true, decide_eq_true_eq,
    beq_iff_eq] at hc
  obtain (((h | h) | rfl) | rfl) | rfl := hc
  · exact hrange (by decide) (by decide) h
  · exact hrange (by decide) (by decide) h
  all_goals decide

theorem hasInnerMark_of_isWordChar (h : ∀ c ∈ cs, isWordChar c = true) : hasInnerMark cs = false := by
  induction cs with
  | nil => rfl
  | cons c cs ih =>
    obtain ⟨hc, hcs⟩ := List.forall_mem_cons.mp h
    have hcolon := ne_of_isWordChar hc (by decide : isWordChar ':' = false)
    rw [hasInnerMark.eq_def]
    split
    · rfl
    · rename_i heq
      exact absurd (List.cons.inj heq).1 hcolon
    · rename_i heq
      obtain ⟨rfl, rfl⟩ := List.cons.inj heq
      exact absurd (hcs '#' List.mem_cons_self) (by decide)
    · rename_i heq
      obtain ⟨rfl, rfl⟩ := List.cons.inj heq
      exact ih hcs

/-- **A word is written without quotes**, unless it begins like a mark between documents. -/
theorem isPlainText_of_isWordChar (hne : cs ≠ []) (h : ∀ c ∈ cs, isWordChar c = true)
    (hpoint : cs.head? ≠ some '.') (hdash : cs.head? = some '-' → ∃ d ∈ cs.tail.head?, d ≠ '-') :
    IsPlainText cs := by
  have hspace : ' ' ∉ cs := fun hmem => absurd (h ' ' hmem) (by decide)
  refine ⟨fun c hc => isPrintable_of_isWordChar (h c hc), hne,
    fun hhead => hspace (List.mem_of_head? hhead), fun hlast => hspace (List.mem_of_getLast? hlast), ?_,
    hasInnerMark_of_isWordChar h⟩
  obtain ⟨c, more, rfl⟩ := List.exists_cons_of_ne_nil hne
  obtain ⟨hc, hmore⟩ := List.forall_mem_cons.mp h
  have hnot (mark : Char) (hmark : isWordChar mark = false) : c ≠ mark := ne_of_isWordChar hc hmark
  have hmarks : ∀ mark ∈ indicators, ¬ isWordChar mark = true := List.any_eq_false.mp (by decide)
  have hindicators : c ∉ indicators := fun hmem => hmarks c hmem hc
  have hpoint' : c ≠ '.' := fun heq => hpoint (heq ▸ rfl)
  by_cases heq : c = '-'
  · subst heq
    obtain ⟨d, hd, hne'⟩ := hdash rfl
    obtain ⟨rest, rfl⟩ : ∃ rest, more = d :: rest := List.head?_eq_some_iff.mp hd
    have hword := hmore d List.mem_cons_self
    have hprint := isPrintable_of_isWordChar hword
    have hblank := ne_of_isWordChar hword (by decide : isWordChar ' ' = false)
    have hnul := ne_of_isWordChar hword (by decide : isWordChar '\x00' = false)
    simp [hasLeadingMark, List.isPrefixOf, hindicators, startsBlank, isBlank_of_isPrintable hprint,
      isBreak_of_isPrintable hprint, hblank, hnul, hne'.symm]
  · simp [hasLeadingMark, List.isPrefixOf, hindicators, hnot '?' (by decide), hnot ':' (by decide),
      heq, Ne.symm heq, hpoint'.symm]

end Word

end TapeLife.Yaml
