import TapeLife.Proofs.Yaml.Scalars
import TapeLife.Proofs.Yaml.Words

/-!
# Proofs/Yaml/Blocks — mappings are read back from their lines

    key:              a mapping further in
      key: text
      key: text
    - key: text       a mapping on the line of its dash
      key: text

What stands after the colon of a key or the dash of an item is read up to the next line that is not
part of it (`HoldsAt`): a scalar to the end of its line, a collection as long as its lines are
indented.  A collection is read in the column of its first character (`StandsAt`), on the lines after
a mark (`StandsAt.holdsAt_indented`) or on the line of a dash (`StandsAt.holdsAt_compact`).  The
entries of a mapping are read one after the other (`readEntries_entryText`), with as many calls left
as there are characters, so a mapping is such a collection (`standsAt_mapping`).
-/

namespace TapeLife.Yaml

/-! ## Keys -/

/-- A scalar that is short enough for a key. -/
structure IsKeyText (key : List Char) (name : Node) : Prop extends IsScalarText key name where
  length_le : key.length ≤ maxKeyLength

/-- Whether a text is a word of small letters and underscores. -/
def isKey (key : List Char) : Bool :=
  key.head?.any (fun c => 'a' ≤ c && c ≤ 'z') && key.all (fun c => ('a' ≤ c && c ≤ 'z') || c == '_')
    && key.length ≤ maxKeyLength

/-- Such a word is a key. -/
theorem isKeyText_of_isKey {key : List Char} (hkey : isKey key = true) :
    IsKeyText key (.scalar true (String.ofList key)) := by
  simp only [isKey, Bool.and_eq_true, decide_eq_true_eq, List.all_eq_true] at hkey
  obtain ⟨⟨hhead, hall⟩, hlength⟩ := hkey
  have hword : ∀ c ∈ key, isWordChar c = true := fun c hc => by
    have hc := hall c hc
    simp only [Bool.or_eq_true] at hc
    obtain hc | hc := hc <;> simp [isWordChar, hc]
  have hletter (mark : Char) (hmark : ('a' ≤ mark && mark ≤ 'z') = false) : key.head? ≠ some mark :=
    fun heq => by simp [heq, hmark] at hhead
  have hne : key ≠ [] := by
    rintro rfl
    cases hhead
  exact ⟨(isPlainText_of_isWordChar hne hword (hletter '.' (by decide))
    fun hdash => absurd hdash (hletter '-' (by decide))).isScalarText, hlength⟩

theorem isKeyText_toList {key : String} (hkey : isKey key.toList = true) :
    IsKeyText key.toList (.scalar true key) := by
  simpa only [String.ofList_toList] using isKeyText_of_isKey hkey

namespace IsKeyText

variable {key more : List Char} {name : Node} (h : IsKeyText key name)
include h

/-- **A key is read up to its colon.** -/
theorem readMaybeKey (hmore : startsBlank more = true) {depth indent line column : Nat}
    (hindent : indent ≤ column + 1) :
    readMaybeKey (depth + 1) indent ⟨key ++ ':' :: more, line, column, true⟩
      = .ok (name, true, ⟨':' :: more, line, column + key.length, false⟩) := by
  have hvisible : IsVisible (':' :: more) :=
    isVisible_of_isPrintable (by decide) (by decide) (by decide) more
  have hcolon (n : Nat) : Cursor.seek false false (':' :: more) line n false
      = ⟨':' :: more, line, n, false⟩ := Cursor.seek_of_isVisible hvisible
  have hlength := h.length_le
  simp only [Yaml.readMaybeKey, h.readInline_colon hmore hindent, bind, Except.bind, Cursor.next,
    hcolon, beq_self_eq_true, Bool.true_and, Cursor.atWord, hmore, if_true, Cursor.spansKey]
  rw [if_pos]
  · rfl
  · simp only [List.length_append, List.length_cons, decide_eq_true_eq] at hlength ⊢
    omega

/-- A mapping begins with a key. -/
theorem readNode (hmore : startsBlank more = true) {depth line column : Nat} {parent : Int}
    (hparent : parent < column) : readNode (depth + 2) parent ⟨key ++ ':' :: more, line, column, true⟩
      = readEntries (depth + 1) column [] name ⟨':' :: more, line, column + key.length, false⟩ := by
  obtain ⟨c, rest, heq⟩ := List.exists_cons_of_ne_nil h.ne_nil
  have hcons : key ++ ':' :: more = c :: (rest ++ ':' :: more) := by simp [heq]
  rw [readNode_succ hcons (h.visible.append h.ne_nil _) (h.atWord (by decide) _)
    (h.unmarked c (by simp [heq])), h.readMaybeKey hmore (by omega)]
  rfl

/-- No mark between documents is a key. -/
theorem isMarker {mark : Char} (hmark : mark ∈ ['-', '.']) (column : Nat) :
    Cursor.isMarker mark (key ++ ':' :: more) column = false := by
  rcases Nat.eq_zero_or_pos column with rfl | hpos
  · have hnone : ∀ mark ∈ ['-', '.'], ':' ≠ mark := by simp
    exact Cursor.isMarker_append (hnone mark hmark) (h.readInline_inPlace.1 mark hmark) more
  · exact Cursor.isMarker_of_pos hpos _

end IsKeyText

/-! ## Values -/

/-- A mark in front of a value: the colon of a key or the dash of an item. -/
inductive Mark
  | colon
  | dash
deriving DecidableEq

/-- The character of a mark. -/
def Mark.char : Mark → Char
  | .colon => ':'
  | .dash => '-'

/-- Whether a key may stand on the line of a mark. -/
def Mark.allowsKey : Mark → Bool
  | .colon => false
  | .dash => true

/-- Reads the value after a mark inside something that stands in a column. -/
def valueAfter (mark : Mark) (depth column : Nat) (c : Cursor) : Except Fault (Node × Cursor) := do
  let first := { c.skip 1 with keyAllowed := mark.allowsKey }.next false
  let first ← if first.column ≤ column then pure first else first.overProperties
  if first.ended || first.column < column then return (Node.nothing, first)
  else if first.column == column then
    match mark with
    | .colon =>
      if first.atWord '-' then readItems depth column true [] first
      else return (Node.nothing, first)
    | .dash => return (Node.nothing, first)
  else readNode depth column first

/-- Goes on after the values of the entries so far. -/
def nextEntry (depth column : Nat) (entries : List (Node × Node)) (d : Cursor) :
    Except Fault (Node × Cursor) := do
  if d.ended || d.column < column then return (.mapping entries.reverse, d)
  else if column < d.column || !d.keyAllowed || d.atWord '-' then d.unexpected
  else
    match ← readMaybeKey depth (column + 1) d with
    | (_, false, _) => d.unexpected
    | (key, true, colon) => readEntries depth column entries key colon

/-- **The entries of a mapping are read value by value.** -/
theorem readEntries_succ (depth column : Nat) (entries : List (Node × Node)) (key : Node)
    (c : Cursor) : readEntries (depth + 1) column entries key c = (do
      let (value, after) ← valueAfter .colon depth column c
      nextEntry depth column ((key, value) :: entries) (after.next false)) := by
  rw [readEntries, valueAfter]
  simp only [Mark.allowsKey]
  generalize { c.skip 1 with keyAllowed := false }.next false = first
  simp only [bind, Except.bind, pure, Except.pure, nextEntry]
  split
  · split
    · rfl
    · split
      · split <;> rfl
      · rfl
  · cases first.overProperties with
    | error fault => rfl
    | ok first =>
      simp only
      split
      · rfl
      · split
        · split <;> rfl
        · rfl

/-- What may follow a value after a mark in a column.  After a key in the same column another dash
would belong to its value. -/
structure FollowsAt (mark : Mark) (column k : Nat) (t : List Char) : Prop
    extends Follows column k t where
  dash : mark = .colon → k = column → (Cursor.start t).atWord '-' = false

/-- What stands between a mark in a column and the next thing that is written is read as a value. -/
structure HoldsAt (mark : Mark) (column : Nat) (body : List Char) (value : Node) : Prop where
  starts : ∀ rest, startsBlank (body ++ rest) = true
  kept : ∀ c ∈ body, isKept c = true
  read : ∀ {depth line col k : Nat} {keyAllowed : Bool} {t : List Char}, body.length ≤ depth →
    column ≤ col → (mark = .dash → col = column) → FollowsAt mark column k t → ∃ after line',
      valueAfter mark depth column
          ⟨mark.char :: (body ++ (List.replicate k ' ' ++ t)), line, col, keyAllowed⟩
        = .ok (value, after) ∧ after.next false = ⟨t, line', k, true⟩

section Values

variable {mark : Mark} {column : Nat}

/-- Something further in is read for itself. -/
theorem valueAfter_of_next {depth : Nat} {c first : Cursor} {d : Char} {more : List Char}
    (hfirst : { c.skip 1 with keyAllowed := mark.allowsKey }.next false = first)
    (hrest : first.rest = d :: more) (hmark : d ∉ ['&', '!', '|', '>'])
    (hcolumn : column < first.column) :
    valueAfter mark depth column c = readNode depth column first := by
  simp only [List.mem_cons, List.not_mem_nil, or_false, not_or] at hmark
  have hproperties : first.overProperties = .ok first := by
    have hproperty : first.atProperty = false := by simp [Cursor.atProperty, hrest, hmark]
    rw [Cursor.overProperties, hproperty]
    rfl
  have hended : first.ended = false := by
    have hne : first.column ≠ 0 := by omega
    simp [Cursor.ended, hrest, Cursor.atStart, Cursor.atStop, Cursor.isMarker, hne]
  have hleft : ¬ first.column ≤ column := by omega
  have hequal : (first.column == column) = false := by
    rw [beq_eq_false_iff_ne]
    omega
  have hless : decide (first.column < column) = false := by
    rw [decide_eq_false_iff_not]
    omega
  rw [valueAfter, hfirst]
  simp only [if_neg hleft, hproperties, bind, Except.bind, hended, hless, hequal, Bool.or_self,
    Bool.false_eq_true, if_false]

/-- Where nothing is written, nothing is read. -/
theorem holdsAt_nothing : HoldsAt mark column ['\n'] .nothing := by
  refine ⟨fun _ => rfl, List.all_eq_true.mp (by decide),
    fun {depth line col k keyAllowed t} _ _ _ ht => ⟨⟨t, line + 1, k, true⟩, line + 1, ?_,
      Cursor.seek_of_isVisible ht.visible⟩⟩
  have hseek : Cursor.seek false false ('\n' :: (List.replicate k ' ' ++ t)) line (col + 1)
      mark.allowsKey = ⟨t, line + 1, k, true⟩ := Cursor.seek_newline ht.visible k
  rw [valueAfter]
  simp only [Cursor.skip, Cursor.next, List.drop_succ_cons, List.drop_zero, List.cons_append,
    List.nil_append, hseek, if_pos ht.le, bind, Except.bind, pure, Except.pure]
  split
  · rfl
  · rename_i hgoes
    rw [Bool.not_eq_true, Bool.or_eq_false_iff, decide_eq_false_iff_not] at hgoes
    obtain rfl : k = column := Nat.le_antisymm ht.le (Nat.not_lt.mp hgoes.2)
    rw [if_pos (beq_self_eq_true _)]
    cases mark with
    | dash => rfl
    | colon =>
      have hdash : (Cursor.mk t (line + 1) k true).atWord '-' = false := ht.dash rfl rfl
      simp [hdash]

/-- A value on the line of its mark. -/
theorem ReadsAs.holdsAt {cs : List Char} {node : Node} (h : ReadsAs cs node) (n : Nat) :
    HoldsAt mark column (List.replicate (n + 1) ' ' ++ (cs ++ ['\n'])) node := by
  refine ⟨fun _ => rfl, fun c hc => ?_, fun {depth line col k keyAllowed t} hdepth hcol _ ht => ?_⟩
  · obtain hc | hc := List.mem_append.mp hc
    · exact List.eq_of_mem_replicate hc ▸ by decide
    · obtain hc | hc := List.mem_append.mp hc
      · exact h.kept c hc
      · exact List.mem_singleton.mp hc ▸ by decide
  · obtain ⟨d, more, rfl⟩ := List.exists_cons_of_ne_nil h.ne_nil
    simp only [List.length_append, List.length_replicate, List.length_cons, List.length_nil] at hdepth
    obtain ⟨depth, rfl⟩ : ∃ n, depth = n + 1 := ⟨depth - 1, by omega⟩
    obtain ⟨after, hread, hafter⟩ := @ReadsAs.read _ _ h depth column line (col + 1 + (n + 1)) k
      mark.allowsKey t (by omega) (by omega) ht.toFollows
    refine ⟨after, line + 1, ?_, hafter.next_eq ht.visible⟩
    refine (valueAfter_of_next ?_ rfl (h.unmarked d rfl)
      (by omega : column < col + 1 + (n + 1))).trans hread
    have hvisible := h.visible.append h.ne_nil ('\n' :: (List.replicate k ' ' ++ t))
    have hseek := @Cursor.seek_replicate _ line (col + 1) mark.allowsKey hvisible (n + 1)
    simpa [Cursor.skip, Cursor.next] using hseek

end Values

/-! ## Collections -/

/-- What may follow a collection: the end, or something further out. -/
structure EndsAt (column k : Nat) (t : List Char) : Prop where
  follows : Follows column k t
  out : t = [] ∨ k < column

/-- What is written from a column on is read as a collection. -/
structure StandsAt (column : Nat) (cs : List Char) (node : Node) : Prop where
  kept : ∀ c ∈ cs, isKept c = true
  ne_nil : cs ≠ []
  visible : IsVisible cs
  unmarked : ∀ c ∈ cs.head?, c ∉ ['&', '!', '|', '>']
  read : ∀ {depth line k : Nat} {parent : Int} {t : List Char}, cs.length ≤ depth → parent < column →
    EndsAt column k t → ∃ line',
      readNode (depth + 1) parent ⟨cs ++ (List.replicate k ' ' ++ t), line, column, true⟩
        = .ok (node, ⟨t, line', k, true⟩)

namespace StandsAt

variable {mark : Mark} {column inner : Nat} {cs : List Char} {node : Node}

/-- A collection further in ends where something further out begins. -/
theorem endsAt (hinner : column < inner) {k : Nat} {t : List Char} (ht : FollowsAt mark column k t) :
    EndsAt inner k t :=
  have hlt : k < inner := Nat.lt_of_le_of_lt ht.le hinner
  ⟨⟨Nat.le_of_lt hlt, ht.visible, ht.colon⟩, .inr hlt⟩

/-- **A collection on the lines after a mark is its value**, if it stands further in. -/
theorem holdsAt_indented (h : StandsAt inner cs node) (hinner : column < inner) :
    HoldsAt mark column ('\n' :: (List.replicate inner ' ' ++ cs)) node := by
  refine ⟨fun _ => rfl, fun c hc => ?_, fun {depth line col k keyAllowed t} hdepth _ _ ht => ?_⟩
  · obtain rfl | hc := List.mem_cons.mp hc
    · decide
    · obtain hc | hc := List.mem_append.mp hc
      · exact List.eq_of_mem_replicate hc ▸ by decide
      · exact h.kept c hc
  · rw [List.length_cons, List.length_append] at hdepth
    obtain ⟨depth, rfl⟩ : ∃ n, depth = n + 1 := ⟨depth - 1, by omega⟩
    obtain ⟨line', hread⟩ := @read _ _ _ h depth (line + 1) k column t (by omega)
      (Int.ofNat_lt.mpr hinner) (endsAt hinner ht)
    have hvisible := h.visible.append h.ne_nil (List.replicate k ' ' ++ t)
    have hseek := @Cursor.seek_newline _ line (col + 1) mark.allowsKey hvisible inner
    have hunmarked := h.unmarked
    obtain ⟨d, more, rfl⟩ := List.exists_cons_of_ne_nil h.ne_nil
    refine ⟨_, line', (valueAfter_of_next ?_ rfl (hunmarked d rfl) hinner).trans hread,
      Cursor.seek_of_isVisible ht.visible⟩
    simpa [Cursor.skip, Cursor.next] using hseek

/-- **A collection on the line of a dash is its value.** -/
theorem holdsAt_compact {n : Nat} (h : StandsAt (column + n + 2) cs node) :
    HoldsAt .dash column (List.replicate (n + 1) ' ' ++ cs) node := by
  refine ⟨fun _ => rfl, fun c hc => ?_, fun {depth line col k keyAllowed t} hdepth _ hcol ht => ?_⟩
  · obtain hc | hc := List.mem_append.mp hc
    · exact List.eq_of_mem_replicate hc ▸ by decide
    · exact h.kept c hc
  · obtain rfl := hcol rfl
    have hinner : col < col + n + 2 := by omega
    rw [List.length_append, List.length_replicate] at hdepth
    obtain ⟨depth, rfl⟩ : ∃ n, depth = n + 1 := ⟨depth - 1, by omega⟩
    obtain ⟨line', hread⟩ := @read _ _ _ h depth line k col t (by omega)
      (Int.ofNat_lt.mpr hinner) (endsAt hinner ht)
    have hvisible := h.visible.append h.ne_nil (List.replicate k ' ' ++ t)
    have hseek := @Cursor.seek_replicate _ line (col + 1) true hvisible (n + 1)
    have hunmarked := h.unmarked
    obtain ⟨d, more, rfl⟩ := List.exists_cons_of_ne_nil h.ne_nil
    refine ⟨_, line', (valueAfter_of_next ?_ rfl (hunmarked d rfl) hinner).trans hread,
      Cursor.seek_of_isVisible ht.visible⟩
    have hplace : col + 1 + (n + 1) = col + n + 2 := by omega
    rw [hplace] at hseek
    simpa [Cursor.skip, Cursor.next, Mark.allowsKey] using hseek

end StandsAt

/-! ## Mappings -/

/-- An entry of a mapping: its key and what that is read as, and what is written from its colon up to
the next entry and what that is read as. -/
structure Entry where
  key : List Char
  name : Node
  body : List Char
  value : Node

namespace Entry

/-- An entry as it is written. -/
def text (e : Entry) : List Char := e.key ++ ':' :: e.body

/-- An entry as it is read. -/
def node (e : Entry) : Node × Node := (e.name, e.value)

/-- An entry with a word for its key and its value on the same line. -/
def line (key text : String) (value : Node) : Entry :=
  ⟨key.toList, .scalar true key, ' ' :: (text.toList ++ ['\n']), value⟩

/-- An entry that is read back from a column. -/
structure WrittenAt (column : Nat) (e : Entry) : Prop where
  key : IsKeyText e.key e.name
  holds : HoldsAt .colon column e.body e.value

/-- Entries as they are written in a column. -/
def textsAt (column : Nat) (es : List Entry) : List Char :=
  es.flatMap fun e => List.replicate column ' ' ++ e.text

theorem textsAt_cons (column : Nat) (e : Entry) (es : List Entry) : textsAt column (e :: es)
    = List.replicate column ' ' ++ (e.text ++ textsAt column es) := by
  simp [textsAt]

end Entry

section Mapping

variable {column k : Nat} {t : List Char}

theorem nextEntry_end (ht : EndsAt column k t) (depth : Nat) (entries : List (Node × Node))
    (line : Nat) : nextEntry depth column entries ⟨t, line, k, true⟩
      = .ok (.mapping entries.reverse, ⟨t, line, k, true⟩) := by
  rw [nextEntry, if_pos]
  · rfl
  · obtain rfl | hk := ht.out
    · simp [Cursor.ended]
    · simp [hk]

theorem nextEntry_key {key more : List Char} {name : Node} (hkey : IsKeyText key name)
    (hmore : startsBlank more = true) (depth : Nat) (entries : List (Node × Node)) (line : Nat) :
    nextEntry (depth + 1) column entries ⟨key ++ ':' :: more, line, column, true⟩
      = readEntries (depth + 1) column entries name
          ⟨':' :: more, line, column + key.length, false⟩ := by
  have hdash : (Cursor.mk (key ++ ':' :: more) line column true).atWord '-' = false :=
    hkey.atWord (by decide) _
  have hended : (Cursor.mk (key ++ ':' :: more) line column true).ended = false := by
    simp [Cursor.ended, Cursor.atStart, Cursor.atStop, hkey.isMarker, hkey.ne_nil]
  rw [nextEntry, if_neg (by simp [hended]), if_neg (by simp [hdash]),
    hkey.readMaybeKey hmore (Nat.le_refl _)]
  rfl

/-- What stands after a value: the next key. -/
theorem followsAt_key {key : List Char} {name : Node} (hkey : IsKeyText key name) (mark : Mark)
    (rest : List Char) : FollowsAt mark column column (key ++ rest) :=
  ⟨⟨Nat.le_refl _, hkey.visible.append hkey.ne_nil rest, hkey.atWord (by decide) rest⟩,
    fun _ _ => hkey.atWord (by decide) rest⟩

theorem EndsAt.followsAt (ht : EndsAt column k t) : FollowsAt .colon column k t := by
  refine ⟨ht.follows, fun _ hk => ?_⟩
  obtain rfl | hlt := ht.out
  · rfl
  · exact absurd hk (Nat.ne_of_lt hlt)

/-- **The entries of a mapping are read one after the other**, from the colon after a key on. -/
theorem readEntries_entryText {es : List Entry} (hes : ∀ e ∈ es, e.WrittenAt column)
    (ht : EndsAt column k t) {e : Entry} (he : HoldsAt .colon column e.body e.value)
    {entries : List (Node × Node)} {depth line col : Nat}
    (hdepth : e.body.length + (Entry.textsAt column es).length < depth) (hcol : column ≤ col) :
    ∃ line', readEntries depth column entries e.name
        ⟨':' :: (e.body ++ (Entry.textsAt column es ++ (List.replicate k ' ' ++ t))), line, col, false⟩
      = .ok (.mapping (entries.reverse ++ (e :: es).map Entry.node), ⟨t, line', k, true⟩) := by
  induction es generalizing e entries depth line col with
  | nil =>
    obtain ⟨depth, rfl⟩ : ∃ n, depth = n + 1 := ⟨depth - 1, by omega⟩
    obtain ⟨after, line', hread, hnext⟩ := @HoldsAt.read _ _ _ _ he depth line col k false t
      (by omega) hcol Mark.noConfusion ht.followsAt
    rw [Mark.char] at hread
    refine ⟨line', ?_⟩
    rw [Entry.textsAt, List.flatMap_nil, List.nil_append, readEntries_succ, hread]
    simp only [bind, Except.bind, hnext, nextEntry_end ht]
    simp [Entry.node]
  | cons f fs ih =>
    obtain ⟨hf, hfs⟩ := List.forall_mem_cons.mp hes
    have hsplit : Entry.textsAt column (f :: fs)
        = List.replicate column ' ' ++ (f.key ++ ':' :: (f.body ++ Entry.textsAt column fs)) := by
      rw [Entry.textsAt_cons, Entry.text, List.append_assoc, List.cons_append]
    have hlength : (Entry.textsAt column (f :: fs)).length
        = column + (f.key.length + (f.body.length + (Entry.textsAt column fs).length + 1)) := by
      rw [hsplit, List.length_append, List.length_replicate, List.length_append, List.length_cons,
        List.length_append]
    have hkey := List.length_pos_iff.mpr hf.key.ne_nil
    obtain ⟨depth, rfl⟩ : ∃ n, depth = n + 2 := ⟨depth - 2, by omega⟩
    obtain ⟨after, line', hread, hnext⟩ := @HoldsAt.read _ _ _ _ he (depth + 1) line col column false
      (f.key ++ ':' :: (f.body ++ (Entry.textsAt column fs ++ (List.replicate k ' ' ++ t))))
      (by omega) hcol Mark.noConfusion (followsAt_key hf.key .colon _)
    rw [Mark.char] at hread
    obtain ⟨line'', hrest⟩ := @ih hfs f hf.holds (e.node :: entries) (depth + 1) line'
      (column + f.key.length) (by omega) (by omega)
    refine ⟨line'', ?_⟩
    rw [hsplit, readEntries_succ]
    simp only [List.append_assoc, List.cons_append, hread, bind, Except.bind, hnext]
    rw [nextEntry_key hf.key (hf.holds.starts _)]
    exact hrest.trans (by simp)

theorem Entry.WrittenAt.kept {e : Entry} (h : e.WrittenAt column) : ∀ c ∈ e.text, isKept c = true :=
  fun c hc => by
    obtain hc | hc := List.mem_append.mp hc
    · exact h.key.kept c hc
    · obtain rfl | hc := List.mem_cons.mp hc
      · decide
      · exact h.holds.kept c hc

theorem Entry.kept_textsAt {es : List Entry} (h : ∀ e ∈ es, e.WrittenAt column) :
    ∀ c ∈ Entry.textsAt column es, isKept c = true := fun c hc => by
  obtain ⟨e, he, hc⟩ := List.mem_flatMap.mp hc
  obtain hc | hc := List.mem_append.mp hc
  · exact List.eq_of_mem_replicate hc ▸ by decide
  · exact (h e he).kept c hc

/-- **A mapping is read from its first key on**, wherever that stands. -/
theorem standsAt_mapping {e : Entry} {es : List Entry} (h : ∀ f ∈ e :: es, f.WrittenAt column) :
    StandsAt column (e.text ++ Entry.textsAt column es) (.mapping ((e :: es).map Entry.node)) := by
  obtain ⟨he, hes⟩ := List.forall_mem_cons.mp h
  obtain ⟨c, more, heq⟩ := List.exists_cons_of_ne_nil he.key.ne_nil
  refine ⟨fun c hc => (List.mem_append.mp hc).elim (he.kept c) (Entry.kept_textsAt hes c),
    by simp [Entry.text], ?_, ?_, fun {depth line k parent t} hdepth hparent ht => ?_⟩
  · rw [Entry.text, List.append_assoc]
    exact he.key.visible.append he.key.ne_nil _
  · intro d hd
    rw [Entry.text, heq] at hd
    exact he.key.unmarked d (by rw [heq]; exact hd)
  · have hkey := List.length_pos_iff.mpr he.key.ne_nil
    rw [Entry.text, List.length_append, List.length_append, List.length_cons] at hdepth
    obtain ⟨depth, rfl⟩ : ∃ n, depth = n + 1 := ⟨depth - 1, by omega⟩
    obtain ⟨line', hread⟩ := @readEntries_entryText column k t es hes ht e he.holds [] (depth + 1) line
      (column + e.key.length) (by omega) (by omega)
    refine ⟨line', ?_⟩
    rw [Entry.text, List.append_assoc, List.append_assoc, List.cons_append,
      he.key.readNode (he.holds.starts _) hparent]
    exact hread

/-- A mapping further in is a value. -/
theorem holdsAt_mapping {mark : Mark} {inner : Nat} (hinner : column < inner) {e : Entry}
    {es : List Entry} (h : ∀ f ∈ e :: es, f.WrittenAt inner) :
    HoldsAt mark column ('\n' :: Entry.textsAt inner (e :: es))
      (.mapping ((e :: es).map Entry.node)) := by
  rw [Entry.textsAt_cons]
  exact (standsAt_mapping h).holdsAt_indented hinner

end Mapping

end TapeLife.Yaml
