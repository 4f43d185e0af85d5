import TapeLife.Proofs.Yaml.Plain

/-!
# Proofs/Yaml/Scalars — a scalar is read from the line it is written on

    key: text ⏎ ␣␣␣ next              key: 'it''s text' ⏎ ␣␣␣ next
         └──┘       ▲                      └──────────┘       ▲
         node     cursor                       node         cursor

A scalar on one line that is read to its end when it stands alone (`IsScalarText`) is read as the same
node wherever it stands, in front of a colon (`IsScalarText.readInline_colon`) or of the end of its
line (`IsScalarText.readsAs`); and the cursor goes to what follows (`ReadsAs`).  Text without quotes
that holds no marks is such a scalar, and so is what is written between single quotes, where only
the quotes count and are written twice (`scanQuoted_quoteEach`).  So a string of printable characters,
however it is written, is read as itself (`readsAs_stringText`).
-/

namespace TapeLife.Yaml

/-! ## Values -/

/-- What may follow a value in a column: the end, or something in that column or before it that does
not look like the colon of a key. -/
structure Follows (column k : Nat) (t : List Char) : Prop where
  le : k ≤ column
  visible : IsVisible t
  colon : (Cursor.start t).atWord ':' = false

/-- Where reading stops after a value: already at what follows, or still at the end of the line. -/
inductive LeftAt (t : List Char) (line k : Nat) : Cursor → Prop
  | next : LeftAt t line k ⟨t, line + 1, k, true⟩
  | lineEnd (column : Nat) :
    LeftAt t line k ⟨'\n' :: (List.replicate k ' ' ++ t), line, column, false⟩

namespace LeftAt

variable {t : List Char} {line k : Nat} {c : Cursor}

theorem next_eq (ht : IsVisible t) (h : LeftAt t line k c) : c.next false = ⟨t, line + 1, k, true⟩ := by
  cases h with
  | next => exact Cursor.seek_of_isVisible ht
  | lineEnd => exact Cursor.seek_newline ht k

/-- Whether a key may start there or not, what comes next is the same. -/
theorem rest_next (ht : IsVisible t) (h : LeftAt t line k c) :
    ({ c with keyAllowed := false }.next false).rest = t := by
  cases h with
  | next => exact congrArg Cursor.rest (Cursor.seek_of_isVisible ht)
  | lineEnd => exact congrArg Cursor.rest (Cursor.seek_newline ht k)

end LeftAt

/-- What is not marked as something else may be a key. -/
theorem readNode_succ {depth : Nat} {parent : Int} {c : Cursor} {first : Char} {more : List Char}
    (hrest : c.rest = first :: more) (hvisible : IsVisible c.rest) (hdash : c.atWord '-' = false)
    (hmark : first ∉ ['&', '!', '|', '>']) :
    readNode (depth + 1) parent c = (do
      match ← readMaybeKey depth (parent + 1).toNat c with
      | (node, false, after) => return (node, after)
      | (key, true, colon) => readEntries depth c.column [] key colon) := by
  simp only [List.mem_cons, List.not_mem_nil, or_false, not_or] at hmark
  have hproperties : c.properties false = .ok c := by
    rw [Cursor.properties, hrest, List.head?_cons]
    split <;> simp_all [pure, Except.pure]
  have hcontent : c.next false = c := Cursor.seek_of_isVisible hvisible
  rw [readNode, hdash, hproperties]
  simp only [Bool.false_eq_true, if_false, bind, Except.bind, hcontent, beq_self_eq_true, if_true,
    Cursor.head?, hrest, List.head?_cons]
  split
  · rename_i heq
    exact absurd (Option.some.inj heq) hmark.2.2.1
  · rename_i heq
    exact absurd (Option.some.inj heq) hmark.2.2.2
  · rfl

/-- What no colon follows is no key. -/
theorem readMaybeKey_of_not_colon {depth indent : Nat} {c after : Cursor} {node : Node}
    (hread : readInline depth false indent c = .ok (node, after))
    (hcolon : ({ after with keyAllowed := false }.next false).atWord ':' = false) :
    readMaybeKey depth indent c = .ok (node, false, after) := by
  simp only [readMaybeKey, hread, bind, Except.bind, hcolon, Bool.and_false, Bool.false_eq_true,
    if_false, pure, Except.pure]

theorem readMaybeKey_value {depth indent column k : Nat} {c after : Cursor} {t : List Char}
    {node : Node} (ht : Follows column k t) (hafter : LeftAt t c.line k after)
    (hread : readInline depth false indent c = .ok (node, after)) :
    readMaybeKey depth indent c = .ok (node, false, after) := by
  refine readMaybeKey_of_not_colon hread ?_
  rw [Cursor.atWord, hafter.rest_next ht.visible]
  exact ht.colon

/-- A text is read as a value wherever it stands on a line, whatever follows on the next one. -/
structure ReadsAs (cs : List Char) (node : Node) : Prop where
  kept : ∀ c ∈ cs, isKept c = true
  ne_nil : cs ≠ []
  visible : IsVisible cs
  unmarked : ∀ c ∈ cs.head?, c ∉ ['&', '!', '|', '>']
  read : ∀ {depth parent line column k : Nat} {keyAllowed : Bool} {t : List Char}, 2 ≤ depth →
    parent < column → Follows parent k t → ∃ after,
      readNode (depth + 1) parent
        ⟨cs ++ '\n' :: (List.replicate k ' ' ++ t), line, column, keyAllowed⟩ = .ok (node, after) ∧
      LeftAt t line k after

/-- What is neither marked nor the dash of an item is read for itself. -/
theorem ReadsAs.of_readInline {cs : List Char} {node : Node} (hkept : ∀ c ∈ cs, isKept c = true)
    (hne : cs ≠ []) (hvisible : IsVisible cs) (hmark : ∀ c ∈ cs.head?, c ∉ ['&', '!', '|', '>'])
    (hdash : ∀ rest line column keyAllowed,
      (Cursor.mk (cs ++ '\n' :: rest) line column keyAllowed).atWord '-' = false)
    (hread : ∀ {depth parent line column k : Nat} {keyAllowed : Bool} {t : List Char}, 2 ≤ depth →
      parent < column → Follows parent k t → ∃ after, readInline depth false (parent + 1)
        ⟨cs ++ '\n' :: (List.replicate k ' ' ++ t), line, column, keyAllowed⟩ = .ok (node, after) ∧
          LeftAt t line k after) : ReadsAs cs node := by
  refine ⟨hkept, hne, hvisible, hmark,
    fun {depth parent line column k keyAllowed t} hdepth hcolumn ht => ?_⟩
  obtain ⟨after, hinline, hafter⟩ := @hread depth parent line column k keyAllowed t hdepth hcolumn ht
  obtain ⟨first, more, rfl⟩ := List.exists_cons_of_ne_nil hne
  have hindent : ((parent : Int) + 1).toNat = parent + 1 := by omega
  refine ⟨after, ?_, hafter⟩
  rw [readNode_succ rfl (hvisible.append hne _) (hdash ..) (hmark first rfl), hindent,
    readMaybeKey_value ht hafter hinline]
  rfl

/-- Brackets with nothing between them are a sequence without items. -/
theorem readsAs_brackets : ReadsAs ['[', ']'] (.sequence []) := by
  refine .of_readInline (List.all_eq_true.mp (by decide)) (by decide)
    (isVisible_of_isPrintable (by decide) (by decide) (by decide) _)
    (fun c hc => Option.some.inj hc ▸ by decide) (fun _ _ _ _ => rfl)
    fun {depth parent line column k keyAllowed t} hdepth hcolumn _ => ?_
  obtain ⟨depth, rfl⟩ : ∃ d, depth = d + 2 := ⟨depth - 2, by omega⟩
  have hnext (rest : List Char) : flowNext ⟨']' :: rest, line, column + 1, keyAllowed⟩
      = .ok ⟨']' :: rest, line, column + 1, keyAllowed⟩ := by
    have hseek : Cursor.seek true false (']' :: rest) line (column + 1) keyAllowed
        = ⟨']' :: rest, line, column + 1, keyAllowed⟩ := by
      simp [Cursor.seek, isBreak, isSeparator]
    simp [flowNext, Cursor.next, hseek, Cursor.ended, Cursor.atStart, Cursor.atStop, Cursor.isMarker]
  refine ⟨_, ?_, .lineEnd (column + 2)⟩
  rw [readInline]
  change readFlowItems (depth + 1) (parent + 1) [] ⟨']' :: _, line, column + 1, keyAllowed⟩ = _
  rw [readFlowItems, hnext]
  rfl

/-! ## Scalars -/

/-- A scalar on one line, without quotes or between them, that is read from its first character to its
last when it stands alone. -/
structure IsScalarText (cs : List Char) (node : Node) : Prop where
  kept : ∀ c ∈ cs, isKept c = true
  line : ∀ c ∈ cs, isBreak c = false
  visible : IsVisible cs
  starts : startsPlain false cs = true ∨ cs.head? = some '\x22' ∨ cs.head? = some '\x27'
  read : ∃ after, readInline 1 false 0 (Cursor.start cs) = .ok (node, after) ∧ after.rest = []

/-- Whether a text is such a scalar can be seen by reading it. -/
theorem isScalarText_of_readInline {cs : List Char} {node : Node}
    (hall : cs.all (fun c => isKept c && !isBreak c) = true) (hvisible : IsVisible cs)
    (hstarts : startsPlain false cs = true ∨ cs.head? = some '\x22' ∨ cs.head? = some '\x27')
    (hread : readInline 1 false 0 (Cursor.start cs) = .ok (node, ⟨[], 0, cs.length, false⟩)) :
    IsScalarText cs node := by
  simp only [List.all_eq_true, Bool.and_eq_true, Bool.not_eq_true'] at hall
  exact ⟨fun c hc => (hall c hc).1, fun c hc => (hall c hc).2, hvisible, hstarts, _, hread, rfl⟩

/-- Between quotes, what is read to its closing quote when it stands alone is read in the same way
wherever it stands on a line. -/
theorem scanQuoted_inPlace {double : Bool} {text : List Char} {gap : Gap} {state : QuoteState}
    {cs out rest : List Char} {l₀ c₀ line column : Nat} {after : Cursor}
    (hline : ∀ c ∈ cs, isBreak c = false)
    (halone : scanQuoted double text gap state cs l₀ c₀ = .ok (out, after)) (hend : after.rest = [])
    (hcolumn : 0 < column) (hrest : rest.head? ≠ some '\x27') :
    scanQuoted double text gap state (cs ++ rest) line column
      = .ok (out, ⟨rest, line, column + cs.length, false⟩) := by
  fun_induction scanQuoted double text gap state cs l₀ c₀ generalizing column
  -- the ways to fail, and the two ways to go on after the end of a line
  case case1 | case2 | case4 | case6 | case11 | case14 => cases halone
  case case8 | case12 => simp_all
  all_goals
    have hdash := @Cursor.isMarker_of_pos '-' column hcolumn
    have hpoint := @Cursor.isMarker_of_pos '.' column hcolumn
    rw [List.cons_append, scanQuoted.eq_def]
  -- the closing quotes
  case case16 =>
    cases halone
    subst hend
    simp_all +zetaDelta
  case case18 =>
    cases halone
    subst hend
    cases rest <;> simp_all +zetaDelta
  -- a quote that is written twice
  case case17 ih =>
    have hread := @ih (column + 2) (fun d hd => hline d (by simp [hd])) halone (Nat.succ_pos _)
    simp_all +zetaDelta [Nat.add_assoc, Nat.add_comm 2]
  case case19 text gap c cs _ _ hbreak hblank _ _ hback hdouble hsingle ih =>
    rw [List.forall_mem_cons] at hline
    simp only [hline.1, hblank, hdash, hpoint, Bool.or_self, Bool.false_eq_true, if_false,
      if_neg hback, if_neg hdouble, if_neg hsingle]
    rw [ih hline.2 halone (Nat.succ_pos _), List.length_cons, Nat.succ_add_eq_add_succ]
  -- all others take one character
  all_goals
    rename_i ih
    have hread := @ih (column + 1) (List.forall_mem_cons.mp hline).2 halone (Nat.succ_pos _)
    simp_all +zetaDelta [Nat.add_assoc, Nat.add_comm 1]

theorem quoted_inPlace {double : Bool} {quote : Char} {cs rest : List Char} {node : Node}
    {line column : Nat} {keyAllowed : Bool} {after : Cursor} (hline : ∀ c ∈ cs, isBreak c = false)
    (halone : (Cursor.start (quote :: cs)).quoted double = .ok (node, after)) (hend : after.rest = [])
    (hrest : rest.head? ≠ some '\x27') :
    (Cursor.mk (quote :: cs ++ rest) line column keyAllowed).quoted double
      = .ok (node, ⟨rest, line, column + (quote :: cs).length, false⟩) := by
  simp only [Cursor.quoted, Cursor.start, List.drop_succ_cons, List.drop_zero, Nat.zero_add] at halone
  cases hscan : scanQuoted double [] .none .between cs 0 1 with
  | error fault => simp [hscan, bind, Except.bind] at halone
  | ok result =>
    simp only [hscan, bind, Except.bind, pure, Except.pure, Except.ok.injEq, Prod.mk.injEq] at halone
    obtain ⟨rfl, rfl⟩ := halone
    simp only [Cursor.quoted, List.cons_append, List.drop_succ_cons, List.drop_zero]
    rw [scanQuoted_inPlace hline hscan hend (Nat.succ_pos column) hrest, List.length_cons,
      Nat.succ_add_eq_add_succ]
    rfl

theorem readInline_double (depth indent : Nat) {cs : List Char} {line column : Nat}
    {keyAllowed : Bool} : readInline (depth + 1) false indent ⟨'\x22' :: cs, line, column, keyAllowed⟩
      = (Cursor.mk ('\x22' :: cs) line column keyAllowed).quoted true := by
  rw [readInline]
  rfl

theorem readInline_single (depth indent : Nat) {cs : List Char} {line column : Nat}
    {keyAllowed : Bool} : readInline (depth + 1) false indent ⟨'\x27' :: cs, line, column, keyAllowed⟩
      = (Cursor.mk ('\x27' :: cs) line column keyAllowed).quoted false := by
  rw [readInline]
  rfl

/-- What does not start with a mark is read as plain text. -/
theorem readInline_plain {cs : List Char} (h : startsPlain false cs = true) (depth indent : Nat)
    {line column : Nat} {keyAllowed : Bool} :
    readInline (depth + 1) false indent ⟨cs, line, column, keyAllowed⟩
      = (Cursor.mk cs line column keyAllowed).plain false indent := by
  rw [readInline]
  simp only [Cursor.head?]
  cases cs with
  | nil => cases h
  | cons c cs =>
    split
    case h_8 => rw [if_pos h]
    all_goals
      rename_i heq
      obtain rfl := Option.some.inj heq
      simp [startsPlain, indicators] at h

namespace IsScalarText

variable {cs : List Char} {node : Node} (h : IsScalarText cs node)
include h

theorem ne_nil : cs ≠ [] := by
  rintro rfl
  obtain h | h | h := h.starts <;> cases h

/-- The first character is none of the marks of something else. -/
theorem exists_cons : ∃ c more, cs = c :: more ∧ c ∉ ['[', '\x7b', '*', '&', '!', '|', '>'] ∧
    ∀ mark ∈ ['-', ':'], c = mark → startsBlank more = false := by
  obtain ⟨c, more, rfl⟩ := List.exists_cons_of_ne_nil h.ne_nil
  refine ⟨c, more, rfl, ?_⟩
  obtain hplain | hquote := h.starts
  · obtain ⟨⟨-, -, hfree⟩, hword⟩ := startsPlain_cons_iff.mp hplain
    have hmarks : ['[', '\x7b', '*', '&', '!', '|', '>'] ⊆ indicators := by decide
    refine ⟨fun hmem => hfree (hmarks hmem), fun mark hmark heq => hword ?_⟩
    simp only [List.mem_cons, List.not_mem_nil, or_false] at hmark
    exact hmark.imp (heq.trans ·) fun hmark => .inr (heq.trans hmark)
  · rw [List.head?_cons, Option.some.injEq, Option.some.injEq] at hquote
    obtain rfl | rfl := hquote <;> exact ⟨by decide, by simp⟩

theorem unmarked : ∀ c ∈ cs.head?, c ∉ ['&', '!', '|', '>'] := by
  obtain ⟨c, more, rfl, hfree, -⟩ := h.exists_cons
  have hmarks : ['&', '!', '|', '>'] ⊆ ['[', '\x7b', '*', '&', '!', '|', '>'] := by decide
  exact fun d hd hmem => hfree (Option.some.inj hd ▸ hmarks hmem)

/-- A dash or a colon in front of a scalar belongs to it. -/
theorem atWord {mark : Char} (hmark : mark ∈ ['-', ':']) (rest : List Char) {line column : Nat}
    {keyAllowed : Bool} : (Cursor.mk (cs ++ rest) line column keyAllowed).atWord mark = false := by
  obtain ⟨c, more, rfl, -, hword⟩ := h.exists_cons
  simp only [Cursor.atWord, List.cons_append, Bool.and_eq_false_iff, beq_eq_false_iff_ne]
  by_cases heq : c = mark
  · exact .inr (startsBlank_append (hword mark hmark heq) rest)
  · exact .inl heq

/-- **A scalar is read in the same way wherever it stands on a line**: without quotes only its end may
be read differently, and between quotes not even that. -/
theorem readInline_inPlace : (∀ mark ∈ ['-', '.'], Cursor.isMarker mark cs 0 = false) ∧
    ((∃ text gap, gap.isBroken = false ∧ node = .scalar true (String.ofList text.reverse) ∧
      ∀ {depth indent line column keyAllowed rest}, indent ≤ column + 1 →
        (column = 0 → ∀ mark ∈ ['-', '.'], Cursor.isMarker mark (cs ++ rest) 0 = false) →
        readInline (depth + 1) false indent ⟨cs ++ rest, line, column, keyAllowed⟩ = (do
          let (text, c) ← scanPlain false indent text gap rest line (column + cs.length) false
          return (.scalar true (String.ofList text), c))) ∨
    ∀ {depth indent line column keyAllowed rest}, rest.head? ≠ some '\x27' →
      readInline (depth + 1) false indent ⟨cs ++ rest, line, column, keyAllowed⟩
        = .ok (node, ⟨rest, line, column + cs.length, false⟩)) := by
  obtain ⟨after, hread, hend⟩ := h.read
  obtain hplain | hquote := h.starts
  · rw [Cursor.start, readInline_plain hplain, Cursor.plain] at hread
    cases halone : scanPlain false 0 [] .none cs 0 0 false with
    | error fault => simp [halone, bind, Except.bind] at hread
    | ok result =>
      obtain ⟨out, after'⟩ := result
      simp only [halone, bind, Except.bind, pure, Except.pure, Except.ok.injEq, Prod.mk.injEq] at hread
      obtain ⟨rfl, rfl⟩ := hread
      obtain ⟨text, gap, hgap, rfl, hscan⟩ := scanPlain_inPlace h.line rfl halone hend
      refine ⟨?_, .inl ⟨text, gap, hgap, rfl,
        fun {depth indent line column keyAllowed rest} hindent hmarker => ?_⟩⟩
      · obtain ⟨c, more, rfl⟩ := List.exists_cons_of_ne_nil h.ne_nil
        obtain ⟨⟨hblank, hbreak, -⟩, -⟩ := startsPlain_cons_iff.mp hplain
        exact (goesOn_of_scanPlain hbreak hblank halone hend).marker
      · rw [readInline_plain (startsPlain_append hplain rest), Cursor.plain,
          hscan (.inl rfl) hindent hmarker]
  · obtain ⟨quote, more, rfl⟩ := List.exists_cons_of_ne_nil h.ne_nil
    have hline := (List.forall_mem_cons.mp h.line).2
    rw [List.head?_cons, Option.some.injEq, Option.some.injEq] at hquote
    have hmark : ∀ mark ∈ ['-', '.'], quote ≠ mark := by
      obtain rfl | rfl := hquote <;> simp
    refine ⟨fun mark hmem => Cursor.isMarker_of_ne (fun _ => hmark mark hmem) more,
      .inr fun {depth indent line column keyAllowed rest} hrest => ?_⟩
    obtain rfl | rfl := hquote
    · rw [Cursor.start, readInline_double] at hread
      rw [List.cons_append, readInline_double]
      exact quoted_inPlace hline hread hend hrest
    · rw [Cursor.start, readInline_single] at hread
      rw [List.cons_append, readInline_single]
      exact quoted_inPlace hline hread hend hrest

/-- In front of a colon it is read up to the colon. -/
theorem readInline_colon {more : List Char} (hmore : startsBlank more = true)
    {depth indent line column : Nat} {keyAllowed : Bool} (hindent : indent ≤ column + 1) :
    readInline (depth + 1) false indent ⟨cs ++ ':' :: more, line, column, keyAllowed⟩
      = .ok (node, ⟨':' :: more, line, column + cs.length, false⟩) := by
  obtain ⟨hmarker, ⟨text, gap, hgap, rfl, hread⟩ | hread⟩ := h.readInline_inPlace
  · have hnone : ∀ mark ∈ ['-', '.'], mark ≠ ':' := by simp
    rw [hread hindent fun _ mark hmark =>
      Cursor.isMarker_append (hnone mark hmark).symm (hmarker mark hmark) more,
      scanPlain_colon hmore hgap]
    rfl
  · exact hread (by simp)

/-- At the end of its line it is read up to there, or up to what follows. -/
theorem readInline_newline {t : List Char} (ht : IsVisible t) {k indent : Nat} (hk : k < indent)
    {depth line column : Nat} {keyAllowed : Bool} (hindent : indent ≤ column) :
    ∃ after, readInline (depth + 1) false indent
        ⟨cs ++ '\n' :: (List.replicate k ' ' ++ t), line, column, keyAllowed⟩ = .ok (node, after) ∧
      LeftAt t line k after := by
  obtain ⟨-, ⟨text, gap, hgap, rfl, hread⟩ | hread⟩ := h.readInline_inPlace
  · refine ⟨_, ?_, .next⟩
    rw [hread (Nat.le_succ_of_le hindent) (fun hzero => by omega), scanPlain_newline ht hk hgap]
    rfl
  · exact ⟨_, hread (by simp), .lineEnd _⟩

/-- **A scalar is read as a value wherever it stands on a line.** -/
theorem readsAs : ReadsAs cs node := by
  refine .of_readInline h.kept h.ne_nil h.visible h.unmarked (fun rest _ _ _ => h.atWord (by decide) _)
    fun {depth parent line column k keyAllowed t} hdepth hcolumn ht => ?_
  obtain ⟨depth, rfl⟩ : ∃ d, depth = d + 1 := ⟨depth - 1, by omega⟩
  exact h.readInline_newline ht.visible (Nat.lt_succ_of_le ht.le) hcolumn

end IsScalarText

/-- Text without quotes that holds no marks is a scalar. -/
theorem IsPlainText.isScalarText {cs : List Char} (h : IsPlainText cs) :
    IsScalarText cs (.scalar true (String.ofList cs)) := by
  refine ⟨fun c hc => isKept_of_isPrintable (h.printable c hc),
    fun c hc => isBreak_of_isPrintable (h.printable c hc), h.isVisible, .inl h.startsPlain,
    ⟨[], 0, cs.length, false⟩, ?_, rfl⟩
  rw [Cursor.start, readInline_plain h.startsPlain, Cursor.plain, h.scanPlain]
  rfl

/-! ## Text between quotes -/

/-- A character between single quotes: a quote is written twice. -/
def quoteEach (c : Char) : List Char := if c == '\x27' then ['\x27', '\x27'] else [c]

/-- A fold that puts the quoted characters in front, last one first, and stays on its line. -/
theorem foldl_quoteEach {body : List Char × Bool → Char → List Char × Bool} {cs : List Char}
    (hbody : ∀ out, ∀ c ∈ cs, body (out, false) c = ((quoteEach c).reverse ++ out, false))
    (out : List Char) :
    cs.foldl body (out, false) = ((cs.flatMap quoteEach).reverse ++ out, false) := by
  induction cs generalizing out with
  | nil => rfl
  | cons c cs ih =>
    have hrest := ih (fun out d hd => hbody out d (List.mem_cons_of_mem _ hd))
    rw [List.foldl_cons, hbody out c List.mem_cons_self, hrest, List.flatMap_cons,
      List.reverse_append, List.append_assoc]

/-- On one line, quoting is a matter of single characters. -/
theorem singleText_eq {cs : List Char} (hprint : ∀ c ∈ cs, isPrintable c = true) (indent : Nat) :
    singleText indent cs = '\x27' :: (cs.flatMap quoteEach ++ ['\x27']) := by
  rw [singleText]
  simp only
  rw [foldl_quoteEach, List.append_nil, List.reverse_reverse]
  intro out c hc
  simp only [isBreak_of_isPrintable (hprint c hc), Bool.false_and, Bool.false_eq_true, if_false,
    quoteEach]
  split <;> rfl

section ScanQuoted

variable {c : Char} {cs bs text rest : List Char} {line column : Nat}

/-- A character that is neither a blank nor a quote. -/
theorem scanQuoted_char (hc : isPrintable c = true) (hspace : c ≠ ' ') (hquote : c ≠ '\x27')
    (hcolumn : 0 < column) :
    scanQuoted false text (.ofBlanks bs) .between (c :: cs) line column
      = scanQuoted false (c :: (bs.reverse ++ text)) .none .between cs line (column + 1) := by
  have hmarker (mark : Char) : Cursor.isMarker mark (c :: cs) column = false :=
    Cursor.isMarker_of_ne (fun h => absurd h (Nat.ne_of_gt hcolumn)) cs
  simp [scanQuoted, isBreak_of_isPrintable hc, isBlank_of_isPrintable hc, hspace, hquote, hmarker,
    Gap.text_ofBlanks]

theorem scanQuoted_space : scanQuoted false text (.ofBlanks bs) .between (' ' :: cs) line column
    = scanQuoted false text (.ofBlanks (bs ++ [' '])) .between cs line (column + 1) := by
  have hbreak : isBreak ' ' = false := by decide
  have hblank : isBlank ' ' = true := by decide
  simp [scanQuoted, hbreak, hblank, Gap.add_ofBlanks]

theorem scanQuoted_twice (hcolumn : 0 < column) :
    scanQuoted false text (.ofBlanks bs) .between ('\x27' :: '\x27' :: cs) line column
      = scanQuoted false ('\x27' :: (bs.reverse ++ text)) .none .between cs line (column + 2) := by
  have hbreak : isBreak '\x27' = false := by decide
  have hblank : isBlank '\x27' = false := by decide
  have hmarker (mark : Char) : Cursor.isMarker mark ('\x27' :: '\x27' :: cs) column = false :=
    Cursor.isMarker_of_ne (fun h => absurd h (Nat.ne_of_gt hcolumn)) _
  simp [scanQuoted, hbreak, hblank, hmarker, Gap.text_ofBlanks]

theorem scanQuoted_close (hcolumn : 0 < column) (hrest : rest.head? ≠ some '\x27') :
    scanQuoted false text (.ofBlanks bs) .between ('\x27' :: rest) line column
      = .ok (text.reverse ++ bs, ⟨rest, line, column + 1, false⟩) := by
  have hbreak : isBreak '\x27' = false := by decide
  have hblank : isBlank '\x27' = false := by decide
  have hmarker (mark : Char) : Cursor.isMarker mark ('\x27' :: rest) column = false :=
    Cursor.isMarker_of_ne (fun h => absurd h (Nat.ne_of_gt hcolumn)) _
  rw [scanQuoted]
  simp only [hbreak, hblank, hmarker, Bool.false_eq_true, if_false, Bool.or_false, Bool.false_and,
    Gap.text_ofBlanks]
  rw [if_pos (by decide)]
  split
  · simp at hrest
  · simp

/-- **Between quotes everything is read as it stands**, two quotes as one. -/
theorem scanQuoted_quoteEach (hprint : ∀ c ∈ cs, isPrintable c = true) (hcolumn : 0 < column)
    (hrest : rest.head? ≠ some '\x27') :
    ∃ column', scanQuoted false text (.ofBlanks bs) .between (cs.flatMap quoteEach ++ '\x27' :: rest)
      line column = .ok (text.reverse ++ bs ++ cs, ⟨rest, line, column', false⟩) := by
  induction cs generalizing bs text column with
  | nil => exact ⟨_, by simpa using scanQuoted_close hcolumn hrest⟩
  | cons c cs ih =>
    obtain ⟨hc, hcs⟩ := List.forall_mem_cons.mp hprint
    rw [List.flatMap_cons, quoteEach]
    by_cases hquote : c = '\x27'
    · subst hquote
      obtain ⟨column', hread⟩ := @ih [] ('\x27' :: (bs.reverse ++ text)) (column + 2) hcs (by omega)
      refine ⟨column', (scanQuoted_twice hcolumn).trans (hread.trans ?_)⟩
      simp
    · have hsingle : (if (c == '\x27') = true then ['\x27', '\x27'] else [c]) = [c] := by
        simp [hquote]
      rw [hsingle]
      by_cases hspace : c = ' '
      · subst hspace
        obtain ⟨column', hread⟩ := @ih (bs ++ [' ']) text (column + 1) hcs (by omega)
        refine ⟨column', scanQuoted_space.trans (hread.trans ?_)⟩
        simp
      · obtain ⟨column', hread⟩ := @ih [] (c :: (bs.reverse ++ text)) (column + 1) hcs (by omega)
        refine ⟨column', (scanQuoted_char hc hspace hquote hcolumn).trans (hread.trans ?_)⟩
        simp

end ScanQuoted

/-- What is written between single quotes is a scalar: the text between them. -/
theorem isScalarText_singleText {cs : List Char} (hprint : ∀ c ∈ cs, isPrintable c = true)
    (indent : Nat) : IsScalarText (singleText indent cs) (.scalar false (String.ofList cs)) := by
  have hquoted : ∀ c ∈ cs.flatMap quoteEach ++ ['\x27'], isPrintable c = true := fun c hc => by
    obtain hc | hc := List.mem_append.mp hc
    · obtain ⟨d, hd, hc⟩ := List.mem_flatMap.mp hc
      rw [quoteEach] at hc
      split at hc <;> simp_all
    · rw [List.mem_singleton.mp hc]
      decide
  obtain ⟨column, hscan⟩ := @scanQuoted_quoteEach cs [] [] [] 0 1 hprint (by decide) (by simp)
  rw [singleText_eq hprint]
  have hall : ∀ c ∈ '\x27' :: (cs.flatMap quoteEach ++ ['\x27']), isPrintable c = true :=
    List.forall_mem_cons.mpr ⟨by decide, hquoted⟩
  refine ⟨fun c hc => isKept_of_isPrintable (hall c hc),
    fun c hc => isBreak_of_isPrintable (hall c hc),
    isVisible_of_isPrintable (by decide) (by decide) (by decide) _, .inr (.inr rfl),
    ⟨[], 0, column, false⟩, ?_, rfl⟩
  rw [readInline]
  exact congrArg (fun read => read >>= _) hscan

/-! ## Strings -/

theorem hasAdjacent_eq_false {first second : Char → Bool} {cs : List Char}
    (h : ∀ a ∈ cs, ∀ b ∈ cs, (first a && second b) = false) : hasAdjacent first second cs = false := by
  rw [hasAdjacent, List.any_eq_false]
  rintro ⟨a, b⟩ hab
  obtain ⟨ha, hb⟩ := List.of_mem_zip hab
  simpa using h a ha b (List.mem_of_mem_drop hb)

/-- A string of printable characters is written without quotes, if that is safe, or between single
ones. -/
theorem formOf_cases {text : String} (hprint : ∀ c ∈ text.toList, isPrintable c = true) :
    formOf text = .plain ∧ IsPlainText text.toList ∨ formOf text = .single := by
  have hbreak : ∀ c ∈ text.toList, isBreak c = false := fun c hc => isBreak_of_isPrintable (hprint c hc)
  have hwritten : ∀ c ∈ text.toList, isPlainlyWritten c = true := fun c hc => by
    have hc := hprint c hc
    rw [isPrintable] at hc
    simp [isPlainlyWritten, hc]
  have hescapes : needsEscapes text.toList = false := by
    rw [needsEscapes, hasAdjacent_eq_false fun a _ b hb => by simp [hbreak b hb], Bool.or_false,
      List.any_eq_false]
    exact fun c hc => by simp [hwritten c hc]
  have hfeed : text.toList.contains '\n' = false := by
    rw [← Bool.not_eq_true, List.contains_iff_mem]
    exact fun hmem => absurd (hprint _ hmem) (by decide)
  have hlines : hasAdjacent isBreak (· == ' ') text.toList = false :=
    hasAdjacent_eq_false fun a ha b _ => by simp [hbreak a ha]
  rw [formOf, hescapes, hfeed, hlines]
  simp only [Bool.false_eq_true, if_false]
  split
  · exact .inr rfl
  · rename_i hsafe
    simp only [Bool.or_eq_true, not_or, Bool.not_eq_true] at hsafe
    obtain ⟨⟨⟨⟨⟨hambiguous, hhead⟩, hlast⟩, -⟩, hleading⟩, hinner⟩ := hsafe
    refine .inl ⟨rfl, hprint, fun hnil => ?_, fun hc => ?_, fun hc => ?_, hleading, hinner⟩
    · rw [String.toList_eq_nil_iff.mp hnil] at hambiguous
      exact absurd hambiguous (by decide)
    · rw [hc] at hhead
      cases hhead
    · rw [hc] at hlast
      cases hlast

/-- **A string of printable characters is read back.** -/
theorem readsAs_stringText {text : String} (hprint : ∀ c ∈ text.toList, isPrintable c = true)
    (column : Nat) :
    ReadsAs (stringText column text).toList (.scalar (formOf text = .plain) text) := by
  rw [stringText, String.toList_ofList]
  obtain ⟨hform, hplain⟩ | hform := formOf_cases hprint
  · simpa [hform] using hplain.isScalarText.readsAs
  · simpa [hform] using (isScalarText_singleText hprint (column + indentStep)).readsAs

end TapeLife.Yaml
