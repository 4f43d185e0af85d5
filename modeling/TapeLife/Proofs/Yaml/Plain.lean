import TapeLife.Yaml.Reader
import TapeLife.Yaml.Writer

/-!
# Proofs/Yaml/Plain — text without quotes

    a␣b:c#d ⏎ ␣␣␣ next        a colon and a comment mark count only next to a blank
    └─────┘       ▲

Nothing in such a text is a mark, so all of it is read (`scanPlain_self`).  What is read to its end
when it stands alone is read in the same way wherever it stands on a line (`scanPlain_inPlace`); and
it ends with its line if what follows is not indented further (`scanPlain_newline`), or at the colon
of a key (`scanPlain_colon`).
-/

namespace TapeLife.Yaml

/-! ## Characters -/

/-- The characters that can be seen, and the space. -/
def isPrintable (c : Char) : Bool := ' ' ≤ c && c ≤ '~'

section Printable

variable {c : Char}

theorem ne_of_isPrintable (hc : isPrintable c = true) {mark : Char}
    (hmark : isPrintable mark = false) : c ≠ mark := by
  rintro rfl
  rw [hc] at hmark
  cases hmark

theorem isBreak_of_isPrintable (hc : isPrintable c = true) : isBreak c = false := by
  have hfeed := ne_of_isPrintable hc (by decide : isPrintable '\n' = false)
  have hline := ne_of_isPrintable hc (by decide : isPrintable '\u2028' = false)
  have hparagraph := ne_of_isPrintable hc (by decide : isPrintable '\u2029' = false)
  simp [isBreak, isSeparator, hfeed, hline, hparagraph]

theorem isBlank_of_isPrintable (hc : isPrintable c = true) : isBlank c = (c == ' ') := by
  have htab := ne_of_isPrintable hc (by decide : isPrintable '\t' = false)
  simp [isBlank, htab]

/-- The characters that a document keeps as they are. -/
def isKept (c : Char) : Bool := isAllowed c && c != '\r' && c != '\u0085'

theorem isKept_of_isPrintable (hc : isPrintable c = true) : isKept c = true := by
  have hreturn := ne_of_isPrintable hc (by decide : isPrintable '\r' = false)
  have hnext := ne_of_isPrintable hc (by decide : isPrintable '\u0085' = false)
  rw [isPrintable] at hc
  simp [isKept, isAllowed, hc, hreturn, hnext]

end Printable

/-! ## What is passed over -/

/-- Whether nothing is left, or something that is neither passed over nor the start of a comment. -/
def IsVisible (t : List Char) : Prop :=
  ∀ c ∈ t.head?, isBreak c = false ∧ isBlank c = false ∧ c ≠ '#' ∧ c ≠ '\ufeff'

instance : (t : List Char) → Decidable (IsVisible t)
  | [] => .isTrue (by simp [IsVisible])
  | c :: _ =>
    decidable_of_iff (isBreak c = false ∧ isBlank c = false ∧ c ≠ '#' ∧ c ≠ '\ufeff')
      (by simp [IsVisible])

/-- Whatever is visible stays so with something after it. -/
theorem IsVisible.append {t : List Char} (h : IsVisible t) (hne : t ≠ []) (rest : List Char) :
    IsVisible (t ++ rest) := by
  obtain ⟨c, more, rfl⟩ := List.exists_cons_of_ne_nil hne
  exact h

theorem isVisible_of_isPrintable {c : Char} (hc : isPrintable c = true) (hspace : c ≠ ' ')
    (hmark : c ≠ '#') (t : List Char) : IsVisible (c :: t) := fun d hd => by
  obtain rfl : c = d := Option.some.inj hd
  refine ⟨isBreak_of_isPrintable hc, ?_, hmark, ne_of_isPrintable hc (by decide)⟩
  rw [isBlank_of_isPrintable hc, beq_eq_false_iff_ne]
  exact hspace

namespace Cursor

variable {t : List Char} {line column : Nat} {keyAllowed : Bool}

/-- Nothing is passed over in front of something visible. -/
theorem seek_of_isVisible (ht : IsVisible t) :
    seek false false t line column keyAllowed = ⟨t, line, column, keyAllowed⟩ := by
  cases t with
  | nil => rfl
  | cons c t =>
    obtain ⟨hbreak, hblank, hmark, horder⟩ := ht c rfl
    rw [isBlank, Bool.or_eq_false_iff, beq_eq_false_iff_ne, beq_eq_false_iff_ne] at hblank
    simp [seek, hbreak, hblank, hmark, horder]

theorem seek_replicate (ht : IsVisible t) (n : Nat) :
    seek false false (List.replicate n ' ' ++ t) line column keyAllowed
      = ⟨t, line, column + n, keyAllowed⟩ := by
  induction n generalizing column with
  | zero => exact seek_of_isVisible ht
  | succ n ih =>
    have hspace : isBreak ' ' = false := by decide
    rw [List.replicate_succ, List.cons_append, seek]
    simp only [hspace, Bool.false_eq_true, if_false, beq_self_eq_true, Bool.true_or, if_true]
    rw [ih, Nat.add_right_comm, Nat.add_assoc]

/-- At the end of a line, what is written next is in its column on the next line, and may be a key. -/
theorem seek_newline (ht : IsVisible t) (n : Nat) :
    seek false false ('\n' :: (List.replicate n ' ' ++ t)) line column keyAllowed
      = ⟨t, line + 1, n, true⟩ := by
  have hbreak : isBreak '\n' = true := by decide
  rw [seek, if_pos hbreak, Bool.not_false, Bool.or_true, seek_replicate ht, Nat.zero_add]

end Cursor

/-! ## Text without quotes -/

namespace Gap

/-- Blanks on one line, or nothing at all. -/
def ofBlanks : List Char → Gap
  | [] => .none
  | c :: cs => .blanks (c :: cs)

theorem add_ofBlanks (bs : List Char) : (ofBlanks bs).add ' ' = ofBlanks (bs ++ [' ']) := by
  cases bs <;> rfl

theorem text_ofBlanks (bs : List Char) : (ofBlanks bs).text = bs := by
  cases bs <;> rfl

/-- A gap stays on its line without the end of a line. -/
theorem isBroken_add {gap : Gap} (hgap : gap.isBroken = false) {c : Char} (hc : isBreak c = false) :
    (gap.add c).isBroken = false := by
  cases gap with
  | breaks => cases hgap
  | none => simp [add, hc, isBroken]
  | blanks => simp [add, hc, isBroken]

end Gap

/-- What has no inner mark has none in its end either. -/
theorem hasInnerMark_of_append {front rest : List Char} (h : hasInnerMark (front ++ rest) = false) :
    hasInnerMark rest = false := by
  induction front with
  | nil => exact h
  | cons c front ih =>
    refine ih ?_
    rw [List.cons_append] at h
    rw [hasInnerMark.eq_def] at h
    split at h <;> simp_all

/-- No comment mark stands after a blank. -/
theorem ne_mark_of_hasInnerMark {bs cs : List Char} {c : Char} (hbs : ∀ b ∈ bs, b = ' ')
    (hne : bs ≠ []) (h : hasInnerMark (bs ++ c :: cs) = false) : c ≠ '#' := by
  rintro rfl
  have hsplit := List.dropLast_concat_getLast hne
  rw [hbs _ (List.getLast_mem hne)] at hsplit
  rw [← hsplit, List.append_assoc] at h
  have hmark := hasInnerMark_of_append h
  simp [hasInnerMark, isBlank] at hmark

theorem startsBlank_append {cs : List Char} (h : startsBlank cs = false) (rest : List Char) :
    startsBlank (cs ++ rest) = false := by
  cases cs with
  | nil => cases h
  | cons c cs => exact h

/-- A colon stands in front of something that is not blank. -/
theorem endsPlain_of_hasInnerMark {c : Char} {cs : List Char}
    (h : hasInnerMark (c :: cs) = false) : endsPlain false (c :: cs) = false := by
  by_cases hc : c = ':'
  · subst hc
    rw [hasInnerMark, Bool.or_eq_false_iff] at h
    simp [endsPlain, h.1]
  · simp [endsPlain, hc]

theorem Cursor.isMarker_iff {mark : Char} {cs : List Char} {column : Nat} :
    isMarker mark cs column = true ↔
      column = 0 ∧ ∃ more, cs = mark :: mark :: mark :: more ∧ startsBlank more = true := by
  rw [isMarker.eq_def, Bool.and_eq_true, beq_iff_eq]
  refine and_congr_right fun _ => ?_
  split
  · rename_i a b c more
    simp only [Bool.and_eq_true, beq_iff_eq]
    constructor
    · rintro ⟨⟨⟨rfl, rfl⟩, rfl⟩, hmore⟩
      exact ⟨more, rfl, hmore⟩
    · rintro ⟨more', heq, hmore⟩
      simp_all
  · rename_i hshort
    simp only [Bool.false_eq_true, false_iff]
    rintro ⟨more, rfl, -⟩
    exact hshort _ _ _ _ rfl

theorem Cursor.isMarker_of_ne {mark c : Char} {column : Nat} (h : column = 0 → c ≠ mark)
    (cs : List Char) : isMarker mark (c :: cs) column = false := by
  rw [← Bool.not_eq_true, isMarker_iff]
  rintro ⟨hzero, more, heq, -⟩
  exact h hzero (List.cons.inj heq).1

theorem Cursor.isMarker_of_pos {mark : Char} {column : Nat} (h : 0 < column) (cs : List Char) :
    isMarker mark cs column = false := by
  simp [isMarker, Nat.ne_of_gt h]

/-- No mark between documents stands at the start of a text that goes on with another character. -/
theorem Cursor.isMarker_append {mark d : Char} {cs : List Char} {column : Nat} (hd : d ≠ mark)
    (h : isMarker mark cs column = false) (more : List Char) :
    isMarker mark (cs ++ d :: more) column = false := by
  rw [← Bool.not_eq_true, isMarker_iff] at h ⊢
  rintro ⟨hzero, rest, heq, hrest⟩
  match cs, h, heq with
  | [], _, heq => exact hd (List.cons.inj heq).1
  | [a], _, heq => simp_all
  | [a, b], _, heq => simp_all
  | [a, b, c], h, heq => exact h ⟨hzero, [], by simp_all, rfl⟩
  | a :: b :: c :: e :: more', h, heq =>
    simp only [List.cons_append, List.cons.injEq] at heq
    obtain ⟨rfl, rfl, rfl, rfl⟩ := heq
    exact h ⟨hzero, e :: more', rfl, hrest⟩

section ScanPlain

variable {indent : Nat} {c : Char} {cs rest bs text : List Char} {line column : Nat}
  {keyAllowed : Bool}

theorem scanPlain_blank {gap : Gap} (hbreak : isBreak c = false) (hblank : isBlank c = true)
    (hgap : gap.isBroken = false) : scanPlain false indent text gap (c :: cs) line column keyAllowed
      = scanPlain false indent text (gap.add c) cs line (column + 1) keyAllowed := by
  rw [scanPlain.eq_def]
  simp [hbreak, hblank, hgap]

theorem scanPlain_space : scanPlain false indent text (.ofBlanks bs) (' ' :: cs) line column keyAllowed
    = scanPlain false indent text (.ofBlanks (bs ++ [' '])) cs line (column + 1) keyAllowed := by
  have hgap : (Gap.ofBlanks bs).isBroken = false := by cases bs <;> rfl
  rw [scanPlain_blank (by decide) (by decide) hgap, Gap.add_ofBlanks]

/-- Whether a text goes on at a character that is neither a blank nor the end of a line. -/
structure GoesOn (indent : Nat) (gap : Gap) (cs : List Char) (column : Nat) : Prop where
  gap : gap = .none ∨ cs.head? ≠ some '#' ∧ indent ≤ column
  marker : ∀ mark ∈ ['-', '.'], Cursor.isMarker mark cs column = false
  colon : endsPlain false cs = false

/-- A character that is no mark where it stands. -/
theorem scanPlain_goesOn {gap : Gap} (hbreak : isBreak c = false) (hblank : isBlank c = false)
    (h : GoesOn indent gap (c :: cs) column) :
    scanPlain false indent text gap (c :: cs) line column keyAllowed
      = scanPlain false indent (c :: (gap.text.reverse ++ text)) .none cs line (column + 1)
        keyAllowed := by
  have hdash := h.marker '-' (by decide)
  have hpoint := h.marker '.' (by decide)
  have hgap := h.gap
  rw [List.head?_cons, ne_eq, Option.some.injEq] at hgap
  rw [scanPlain.eq_def]
  cases gap with
  | none => simp [hbreak, hblank, hdash, hpoint, h.colon]
  | _ =>
    obtain ⟨hmark, hle⟩ := hgap.resolve_left (by simp)
    simp [hbreak, hblank, hdash, hpoint, h.colon, hmark, Nat.not_lt.mpr hle]

/-- At any other character the text ends. -/
theorem scanPlain_stops {gap : Gap} (hbreak : isBreak c = false) (hblank : isBlank c = false)
    (h : ¬ GoesOn indent gap (c :: cs) column) :
    scanPlain false indent text gap (c :: cs) line column keyAllowed
      = .ok (text.reverse, ⟨c :: cs, line, column, keyAllowed || gap.isBroken⟩) := by
  have hstop : gap ≠ .none ∧ (c = '#' ∨ column < indent)
      ∨ Cursor.isMarker '-' (c :: cs) column = true ∨ Cursor.isMarker '.' (c :: cs) column = true
      ∨ endsPlain false (c :: cs) = true := Classical.byContradiction fun hno => by
    simp only [not_or, not_and, Bool.not_eq_true, Nat.not_lt] at hno
    obtain ⟨hgap, hdash, hpoint, hcolon⟩ := hno
    refine h ⟨?_, by simp [hdash, hpoint], hcolon⟩
    refine (Classical.em (gap = .none)).imp_right fun hne => ?_
    obtain ⟨hmark, hle⟩ := hgap hne
    exact ⟨fun heq => hmark (Option.some.inj heq), hle⟩
  rw [scanPlain.eq_def]
  obtain ⟨hgap, hmark | hlt⟩ | hdash | hpoint | hcolon := hstop
  · cases gap <;> simp_all
  · cases gap <;> simp_all
  · simp [hbreak, hblank, hdash]
  · simp [hbreak, hblank, hpoint]
  · simp [hbreak, hblank, hcolon]

/-- **All of a text is read** if nothing in it is a mark.  `bs` are the blanks in front of what is left
of it. -/
theorem scanPlain_self (hbs : ∀ b ∈ bs, b = ' ') (hprint : ∀ c ∈ cs, isPrintable c = true)
    (hinner : hasInnerMark (bs ++ cs) = false) (hlast : (bs ++ cs).getLast? ≠ some ' ')
    (hmarker : column = 0 → ∀ mark ∈ ['-', '.'], Cursor.isMarker mark cs 0 = false) :
    scanPlain false 0 text (.ofBlanks bs) cs line column keyAllowed
      = .ok (text.reverse ++ (bs ++ cs), ⟨[], line, column + cs.length, keyAllowed⟩) := by
  induction cs generalizing bs text column with
  | nil =>
    obtain rfl : bs = [] := Classical.byContradiction fun hne => by
      rw [List.append_nil, List.getLast?_eq_some_getLast hne, hbs _ (List.getLast_mem hne)] at hlast
      exact hlast rfl
    simp [scanPlain, Gap.ofBlanks, Gap.isBroken]
  | cons c cs ih =>
    obtain ⟨hc, hcs⟩ := List.forall_mem_cons.mp hprint
    by_cases hspace : c = ' '
    · subst hspace
      have hsplit : bs ++ ' ' :: cs = bs ++ [' '] ++ cs := by simp
      rw [hsplit] at hinner hlast ⊢
      have hbs' : ∀ b ∈ bs ++ [' '], b = ' ' := fun b hb =>
        (List.mem_append.mp hb).elim (hbs b) List.mem_singleton.mp
      rw [scanPlain_space, ih hbs' hcs hinner hlast (fun h => absurd h (Nat.succ_ne_zero column)),
        Nat.succ_add_eq_add_succ, List.length_cons]
    · have hgoes : GoesOn 0 (.ofBlanks bs) (c :: cs) column := by
        refine ⟨?_, fun mark hmark => ?_, endsPlain_of_hasInnerMark (hasInnerMark_of_append hinner)⟩
        · cases bs with
          | nil => exact .inl rfl
          | cons b bs =>
            have hmark := ne_mark_of_hasInnerMark hbs (List.cons_ne_nil b bs) hinner
            exact .inr ⟨fun h => hmark (Option.some.inj h), Nat.zero_le column⟩
        · rcases Nat.eq_zero_or_pos column with rfl | hpos
          · exact hmarker rfl mark hmark
          · exact Cursor.isMarker_of_pos hpos _
      have htail : hasInnerMark cs = false :=
        hasInnerMark_of_append (List.append_cons bs c cs ▸ hinner)
      have hlast' : cs.getLast? ≠ some ' ' := by
        cases cs with
        | nil => simp
        | cons d cs => simpa using hlast
      have hblank : isBlank c = false := by simp [isBlank_of_isPrintable hc, hspace]
      rw [scanPlain_goesOn (isBreak_of_isPrintable hc) hblank hgoes, Gap.text_ofBlanks]
      refine (ih (List.forall_mem_nil _) hcs htail hlast'
        (fun h => absurd h (Nat.succ_ne_zero column))).trans ?_
      simp [Nat.add_assoc, Nat.add_comm 1]

/-- After the end of the line the text stops at what is not indented enough. -/
theorem scanPlain_indent {t : List Char} (ht : IsVisible t) {k : Nat} (hk : column + k < indent)
    (first : Option Char) (more : List Char) :
    scanPlain false indent text (.breaks first more) (List.replicate k ' ' ++ t) line column keyAllowed
      = .ok (text.reverse, ⟨t, line, column + k, true⟩) := by
  induction k generalizing column with
  | zero =>
    cases t with
    | nil => simp [scanPlain, Gap.isBroken]
    | cons c t =>
      obtain ⟨hbreak, hblank, -⟩ := ht c rfl
      have hleft : ¬ indent ≤ column := by omega
      simp [scanPlain, hbreak, hblank, Gap.isBroken, hleft]
  | succ k ih =>
    have hbreak : isBreak ' ' = false := by decide
    have hblank : isBlank ' ' = true := by decide
    have hread := @ih (column + 1) (by omega)
    simp [List.replicate_succ, scanPlain, hbreak, hblank, Gap.add, hread, Nat.add_assoc,
      Nat.add_comm 1]

theorem scanPlain_newline {t : List Char} (ht : IsVisible t) {k : Nat} (hk : k < indent) {gap : Gap}
    (hgap : gap.isBroken = false) :
    scanPlain false indent text gap ('\n' :: (List.replicate k ' ' ++ t)) line column keyAllowed
      = .ok (text.reverse, ⟨t, line + 1, k, true⟩) := by
  have hbreak : isBreak '\n' = true := by decide
  have hread := @scanPlain_indent indent text (line + 1) 0 keyAllowed t ht k (by omega) (some '\n') []
  have hadd : gap.add '\n' = .breaks (some '\n') [] := by
    cases gap with
    | none => rfl
    | blanks => rfl
    | breaks => cases hgap
  rw [scanPlain.eq_def]
  simpa only [hbreak, if_true, hadd, Nat.zero_add] using hread

/-- A key ends at its colon. -/
theorem scanPlain_colon {more : List Char} (hmore : startsBlank more = true) {gap : Gap}
    (hgap : gap.isBroken = false) :
    scanPlain false indent text gap (':' :: more) line column keyAllowed
      = .ok (text.reverse, ⟨':' :: more, line, column, keyAllowed⟩) := by
  have hbreak : isBreak ':' = false := by decide
  have hblank : isBlank ':' = false := by decide
  rw [scanPlain.eq_def]
  simp [hbreak, hblank, endsPlain, hmore, hgap]

/-- What is read to its end goes on at its first character. -/
theorem goesOn_of_scanPlain {gap : Gap} {out : List Char} {after : Cursor}
    (hbreak : isBreak c = false) (hblank : isBlank c = false)
    (hread : scanPlain false indent text gap (c :: cs) line column keyAllowed = .ok (out, after))
    (hend : after.rest = []) : GoesOn indent gap (c :: cs) column :=
  Classical.byContradiction fun hstops => by
    rw [scanPlain_stops hbreak hblank hstops] at hread
    cases hread
    cases hend

/-- **What is read to its end when it stands alone is read in the same way wherever it stands on a
line.**  Only the end may then be read differently: after the text so far and the gap since. -/
theorem scanPlain_inPlace {gap : Gap} {out : List Char} {l₀ c₀ : Nat} {after : Cursor}
    (hline : ∀ c ∈ cs, isBreak c = false) (hgap : gap.isBroken = false)
    (halone : scanPlain false 0 text gap cs l₀ c₀ false = .ok (out, after)) (hend : after.rest = []) :
    ∃ text' gap', gap'.isBroken = false ∧ out = text'.reverse ∧
      ∀ {indent line column rest}, (gap = .none ∨ indent ≤ column) → indent ≤ column + 1 →
        (column = 0 → ∀ mark ∈ ['-', '.'], Cursor.isMarker mark (cs ++ rest) 0 = false) →
        scanPlain false indent text gap (cs ++ rest) line column false
          = scanPlain false indent text' gap' rest line (column + cs.length) false := by
  induction cs generalizing text gap c₀ with
  | nil =>
    rw [scanPlain] at halone
    exact ⟨text, gap, hgap, (congrArg Prod.fst (Except.ok.inj halone)).symm, fun _ _ _ => rfl⟩
  | cons c cs ih =>
    obtain ⟨hbreak, hcs⟩ := List.forall_mem_cons.mp hline
    by_cases hblank : isBlank c = true
    · rw [scanPlain_blank hbreak hblank hgap] at halone
      obtain ⟨text', gap', hgap', hout, hread⟩ := ih hcs (Gap.isBroken_add hgap hbreak) halone
      refine ⟨text', gap', hgap', hout, fun {indent line column rest} _ hindent hmarker => ?_⟩
      rw [List.cons_append, scanPlain_blank hbreak hblank hgap,
        hread (.inr hindent) (Nat.le_succ_of_le hindent) (fun h => absurd h (Nat.succ_ne_zero _)),
        List.length_cons, Nat.add_right_comm, Nat.add_assoc]
    · rw [Bool.not_eq_true] at hblank
      have hgoes := goesOn_of_scanPlain hbreak hblank halone hend
      rw [scanPlain_goesOn hbreak hblank hgoes] at halone
      obtain ⟨text', gap', hgap', hout, hread⟩ := ih hcs rfl halone
      refine ⟨text', gap', hgap', hout, fun {indent line column rest} hstart hindent hmarker => ?_⟩
      have hgoes' : GoesOn indent gap (c :: (cs ++ rest)) column := by
        refine ⟨?_, fun mark hmark => ?_, ?_⟩
        · exact hgoes.gap.elim .inl fun hmark => hstart.imp_right fun hle => ⟨hmark.1, hle⟩
        · rcases Nat.eq_zero_or_pos column with rfl | hpos
          · exact hmarker rfl mark hmark
          · exact Cursor.isMarker_of_pos hpos _
        · have hcolon := hgoes.colon
          rw [endsPlain, Bool.false_and, Bool.or_false, Bool.and_eq_false_iff] at hcolon ⊢
          exact hcolon.imp_right fun hword => startsBlank_append hword rest
      rw [List.cons_append, scanPlain_goesOn hbreak hblank hgoes',
        hread (.inl rfl) (Nat.le_succ_of_le hindent) (fun h => absurd h (Nat.succ_ne_zero _)),
        List.length_cons, Nat.add_right_comm, Nat.add_assoc]

end ScanPlain

/-! ## Where a text may start -/

/-- What a text without quotes may start with. -/
theorem startsPlain_cons_iff {c : Char} {cs : List Char} : startsPlain false (c :: cs) = true ↔
    (isBlank c = false ∧ isBreak c = false ∧ c ∉ indicators) ∧
      (c = '-' ∨ c = '?' ∨ c = ':' → startsBlank cs = false) := by
  have hcontains : indicators.contains c = true ↔ c ∈ indicators := List.contains_iff_mem
  by_cases hdash : c = '-'
  · subst hdash
    have hfree : isBlank '-' = false ∧ isBreak '-' = false ∧ '-' ∉ indicators := by decide
    cases hblank : startsBlank cs <;> simp [startsPlain, hfree, hblank]
  · by_cases hmark : c = '?' ∨ c = ':'
    · have hfree : isBlank c = false ∧ isBreak c = false ∧ c ∉ indicators := by
        obtain rfl | rfl := hmark <;> decide
      cases hblank : startsBlank cs <;> simp [startsPlain, hfree, hblank, hdash, hmark]
    · obtain ⟨hquestion, hcolon⟩ := not_or.mp hmark
      cases hblank : isBlank c <;> cases hbreak : isBreak c <;>
        simp [startsPlain, hblank, hbreak, hdash, hquestion, hcolon]

/-- What starts without quotes goes on so with something after it. -/
theorem startsPlain_append {cs : List Char} (h : startsPlain false cs = true) (rest : List Char) :
    startsPlain false (cs ++ rest) = true := by
  cases cs with
  | nil => cases h
  | cons c cs =>
    rw [startsPlain_cons_iff] at h
    rw [List.cons_append, startsPlain_cons_iff]
    exact ⟨h.1, fun hmark => startsBlank_append (h.2 hmark) rest⟩

/-- A text that is written without quotes. -/
structure IsPlainText (cs : List Char) : Prop where
  printable : ∀ c ∈ cs, isPrintable c = true
  ne_nil : cs ≠ []
  head : cs.head? ≠ some ' '
  last : cs.getLast? ≠ some ' '
  leading : hasLeadingMark cs = false
  inner : hasInnerMark cs = false

theorem IsPlainText.startsPlain {cs : List Char} (h : IsPlainText cs) :
    startsPlain false cs = true := by
  obtain ⟨c, more, rfl⟩ := List.exists_cons_of_ne_nil h.ne_nil
  have hc := h.printable c List.mem_cons_self
  have hspace : c ≠ ' ' := fun heq => h.head (heq ▸ rfl)
  have hleading := h.leading
  simp only [hasLeadingMark, Bool.or_eq_false_iff, Bool.and_eq_false_iff, beq_eq_false_iff_ne,
    List.contains_eq_mem, decide_eq_false_iff_not] at hleading
  have hwords := hleading.1.1.2
  refine startsPlain_cons_iff.mpr ⟨⟨?_, isBreak_of_isPrintable hc, hleading.1.1.1⟩, fun hmark => ?_⟩
  · rw [isBlank_of_isPrintable hc, beq_eq_false_iff_ne]
    exact hspace
  · grind

theorem IsPlainText.isVisible {cs : List Char} (h : IsPlainText cs) : IsVisible cs := by
  have hstarts := h.startsPlain
  obtain ⟨c, more, rfl⟩ := List.exists_cons_of_ne_nil h.ne_nil
  have hfree := (startsPlain_cons_iff.mp hstarts).1.2.2
  exact isVisible_of_isPrintable (h.printable c List.mem_cons_self) (fun heq => h.head (heq ▸ rfl))
    (fun heq => hfree (heq ▸ by decide)) more

/-- No mark between documents is a plain text. -/
theorem IsPlainText.isMarker {cs : List Char} (h : IsPlainText cs) :
    ∀ mark ∈ ['-', '.'], Cursor.isMarker mark cs 0 = false := fun mark hmark => by
  rw [← Bool.not_eq_true, Cursor.isMarker_iff]
  rintro ⟨-, more, rfl, -⟩
  have hleading := h.leading
  simp only [List.mem_cons, List.not_mem_nil, or_false] at hmark
  obtain rfl | rfl := hmark <;> simp [hasLeadingMark, List.isPrefixOf] at hleading

/-- Such a text is read to its end when it stands alone. -/
theorem IsPlainText.scanPlain {cs : List Char} (h : IsPlainText cs) :
    scanPlain false 0 [] .none cs 0 0 false = .ok (cs, ⟨[], 0, cs.length, false⟩) := by
  have hread := @scanPlain_self cs [] [] 0 0 false (List.forall_mem_nil _) h.printable h.inner h.last
    fun _ => h.isMarker
  simpa [Gap.ofBlanks] using hread

end TapeLife.Yaml
