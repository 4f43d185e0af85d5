import Mathlib.Data.List.Basic
import TapeLife.Proofs.Yaml.Blocks

/-!
# Proofs/Yaml/Document — a document is read back from its lines

    key:              a sequence in the column of its key, or further in
    - key: text       its items are mappings,
      key: text
    - text            scalars,
    -                 nothing at all
    key: text         the next key ends it

Items are read one after the other up to the next key (`readItems_itemText`), so a sequence is a
collection (`standsAt_sequence`), and it may also stand in the column of its key
(`holdsAt_flush`).  All that is built of scalars, mappings and sequences by indentation (`IsBlock`) is
therefore read as what it is built of (`IsBlock.reads`).  A document is a mapping in some column, and
all of its lines are read (`ofText_textsAt`).
-/

namespace TapeLife.Yaml

/-! ## Sequences -/

/-- An item of a sequence: what is written from its dash up to the next item, and what that is read
as. -/
structure Item where
  body : List Char
  value : Node

namespace Item

/-- An item as it is written. -/
def text (i : Item) : List Char := '-' :: i.body

/-- An item that is read back from a column. -/
def WrittenAt (column : Nat) (i : Item) : Prop := HoldsAt .dash column i.body i.value

/-- Items as they are written in a column. -/
def textsAt (column : Nat) (is : List Item) : List Char :=
  is.flatMap fun i => List.replicate column ' ' ++ i.text

theorem textsAt_cons (column : Nat) (i : Item) (is : List Item) : textsAt column (i :: is)
    = List.replicate column ' ' ++ (i.text ++ textsAt column is) := by
  simp [textsAt]

variable {column : Nat} {i : Item}

theorem WrittenAt.kept (h : i.WrittenAt column) : ∀ c ∈ i.text, isKept c = true :=
  List.forall_mem_cons.mpr ⟨by decide, HoldsAt.kept h⟩

theorem kept_textsAt {is : List Item} (h : ∀ i ∈ is, i.WrittenAt column) :
    ∀ c ∈ textsAt column is, isKept c = true := fun c hc => by
  obtain ⟨i, hi, hc⟩ := List.mem_flatMap.mp hc
  obtain hc | hc := List.mem_append.mp hc
  · exact List.eq_of_mem_replicate hc ▸ by decide
  · exact (h i hi).kept c hc

theorem isVisible (i : Item) (rest : List Char) : IsVisible (i.text ++ rest) :=
  isVisible_of_isPrintable (by decide) (by decide) (by decide) _

/-- The dash of an item is one. -/
theorem WrittenAt.atWord (h : i.WrittenAt column) (rest : List Char) {line col : Nat}
    {keyAllowed : Bool} : (Cursor.mk (i.text ++ rest) line col keyAllowed).atWord '-' = true :=
  HoldsAt.starts h rest

/-- The dash of an item is not a mark between documents. -/
theorem WrittenAt.not_ended (h : i.WrittenAt column) (rest : List Char) {line col : Nat}
    {keyAllowed : Bool} : (Cursor.mk (i.text ++ rest) line col keyAllowed).ended = false := by
  have hstarts : startsBlank (i.body ++ rest) = true := HoldsAt.starts h rest
  have hmarker (mark : Char) (hmark : mark ∈ ['-', '.']) :
      Cursor.isMarker mark ('-' :: (i.body ++ rest)) col = false := by
    rw [← Bool.not_eq_true, Cursor.isMarker_iff]
    rintro ⟨-, more, heq, -⟩
    obtain ⟨rfl, heq⟩ := List.cons.inj heq
    rw [heq] at hstarts
    exact Bool.false_ne_true hstarts
  simp [Cursor.ended, Cursor.atStart, Cursor.atStop, text, hmarker]

/-- What stands after an item: the next one. -/
theorem followsAt (i : Item) (rest : List Char) :
    FollowsAt .dash column column (i.text ++ rest) :=
  ⟨⟨Nat.le_refl _, i.isVisible rest, rfl⟩, Mark.noConfusion⟩

end Item

/-- Goes on after the items so far. -/
def nextItem (depth column : Nat) (flush : Bool) (items : List Node) (d : Cursor) :
    Except Fault (Node × Cursor) :=
  if d.ended || d.column < column then .ok (.sequence items.reverse, d)
  else if column < d.column then d.unexpected
  else if d.atWord '-' then readItems depth column flush items d
  else if flush then .ok (.sequence items.reverse, d)
  else d.unexpected

/-- **The items of a sequence are read value by value.** -/
theorem readItems_succ (depth column : Nat) (flush : Bool) (items : List Node) (c : Cursor) :
    readItems (depth + 1) column flush items c = (do
      let (item, after) ← valueAfter .dash depth column c
      nextItem depth column flush (item :: items) (after.next false)) := by
  rw [readItems, valueAfter]
  simp only [Mark.allowsKey]
  generalize { c.skip 1 with keyAllowed := true }.next false = first
  -- both ways to read nothing after a dash are one
  have hnothing (d : Cursor) : (if d.ended || d.column < column then
        (.ok (.nothing, d) : Except Fault (Node × Cursor))
      else if d.column == column then .ok (.nothing, d) else readNode depth column d)
        = if d.ended || d.column ≤ column then .ok (.nothing, d) else readNode depth column d := by
    rcases Nat.lt_trichotomy d.column column with hlt | heq | hgt
    · simp [hlt, Nat.le_of_lt hlt]
    · simp [heq]
    · simp [Nat.not_lt.mpr (Nat.le_of_lt hgt), Nat.not_le.mpr hgt, Nat.ne_of_gt hgt]
  simp only [bind, Except.bind, pure, Except.pure, hnothing]
  split
  · split <;> rfl
  · cases first.overProperties with
    | error fault => rfl
    | ok first =>
      simp only
      split <;> rfl

/-- What may follow a sequence in a column: the end, something further out, or, if it stands in the
column of its key, the next key. -/
structure EndsItems (flush : Bool) (column k : Nat) (t : List Char) : Prop where
  follows : Follows column k t
  out : t = [] ∨ k < column ∨ flush = true ∧ k = column ∧ (Cursor.start t).atWord '-' = false

section Sequence

variable {flush : Bool} {column k : Nat} {t : List Char}

theorem nextItem_end (ht : EndsItems flush column k t) (depth : Nat) (items : List Node)
    (line : Nat) : nextItem depth column flush items ⟨t, line, k, true⟩
      = .ok (.sequence items.reverse, ⟨t, line, k, true⟩) := by
  rw [nextItem]
  obtain rfl | hlt | ⟨rfl, rfl, hdash⟩ := ht.out
  · simp [Cursor.ended]
  · simp [hlt]
  · have hdash : (Cursor.mk t line k true).atWord '-' = false := hdash
    simp [hdash]

/-- **The items of a sequence are read one after the other**, up to what is none. -/
theorem readItems_itemText {is : List Item} (his : ∀ i ∈ is, i.WrittenAt column)
    (ht : EndsItems flush column k t) {i : Item} (hi : i.WrittenAt column) {items : List Node}
    {depth line : Nat} {keyAllowed : Bool}
    (hdepth : (i.text ++ Item.textsAt column is).length ≤ depth) :
    ∃ line', readItems depth column flush items
        ⟨i.text ++ (Item.textsAt column is ++ (List.replicate k ' ' ++ t)), line, column, keyAllowed⟩
      = .ok (.sequence (items.reverse ++ (i :: is).map Item.value), ⟨t, line', k, true⟩) := by
  induction is generalizing i items depth line keyAllowed with
  | nil =>
    rw [Item.text, List.length_append, List.length_cons] at hdepth
    obtain ⟨depth, rfl⟩ : ∃ n, depth = n + 1 := ⟨depth - 1, by omega⟩
    obtain ⟨after, line', hread, hnext⟩ := @HoldsAt.read _ _ _ _ hi depth line column k keyAllowed t
      (by omega) (Nat.le_refl _) (fun _ => rfl) ⟨ht.follows, Mark.noConfusion⟩
    rw [Mark.char] at hread
    refine ⟨line', ?_⟩
    rw [Item.textsAt, List.flatMap_nil, List.nil_append, readItems_succ, Item.text, List.cons_append,
      hread]
    simp only [bind, Except.bind, hnext, nextItem_end ht]
    simp
  | cons j js ih =>
    obtain ⟨hj, hjs⟩ := List.forall_mem_cons.mp his
    rw [Item.text, List.length_append, List.length_cons, Item.textsAt_cons, List.length_append,
      List.length_replicate] at hdepth
    obtain ⟨depth, rfl⟩ : ∃ n, depth = n + 1 := ⟨depth - 1, by omega⟩
    obtain ⟨after, line', hread, hnext⟩ := @HoldsAt.read _ _ _ _ hi depth line column column
      keyAllowed (j.text ++ (Item.textsAt column js ++ (List.replicate k ' ' ++ t)))
      (by omega) (Nat.le_refl _) (fun _ => rfl) (j.followsAt _)
    rw [Mark.char] at hread
    obtain ⟨line'', hrest⟩ := @ih hjs j hj (i.value :: items) depth line' true (by omega)
    refine ⟨line'', ?_⟩
    rw [Item.textsAt_cons, readItems_succ, Item.text]
    simp only [List.append_assoc, List.cons_append, hread, bind, Except.bind, hnext]
    rw [nextItem, if_neg (by simp [hj.not_ended]), if_neg (Nat.lt_irrefl _), if_pos (hj.atWord _),
      hrest]
    simp

/-- **A sequence is read from its first dash on**, wherever that stands. -/
theorem standsAt_sequence {i : Item} {is : List Item} (h : ∀ j ∈ i :: is, j.WrittenAt column) :
    StandsAt column (i.text ++ Item.textsAt column is) (.sequence ((i :: is).map Item.value)) := by
  obtain ⟨hi, his⟩ := List.forall_mem_cons.mp h
  refine ⟨fun c hc => (List.mem_append.mp hc).elim (hi.kept c) (Item.kept_textsAt his c),
    by simp [Item.text], i.isVisible _, fun d hd => Option.some.inj hd ▸ by decide,
    fun {depth line k parent t} hdepth _ ht => ?_⟩
  obtain ⟨line', hread⟩ := @readItems_itemText false column k t is his
    ⟨ht.follows, ht.out.imp_right .inl⟩ i hi [] depth line true hdepth
  refine ⟨line', ?_⟩
  rw [List.append_assoc, readNode, if_pos (hi.atWord _), if_pos rfl]
  exact hread

/-- **A sequence in the column of its key is the value of the key.** -/
theorem holdsAt_flush {i : Item} {is : List Item} (h : ∀ j ∈ i :: is, j.WrittenAt column) :
    HoldsAt .colon column ('\n' :: Item.textsAt column (i :: is))
      (.sequence ((i :: is).map Item.value)) := by
  obtain ⟨hi, his⟩ := List.forall_mem_cons.mp h
  refine ⟨fun _ => rfl, List.forall_mem_cons.mpr ⟨by decide, Item.kept_textsAt h⟩,
    fun {depth line col k keyAllowed t} hdepth _ _ ht => ?_⟩
  rw [Item.textsAt_cons, List.length_cons, List.length_append] at hdepth
  have hends : EndsItems true column k t := by
    refine ⟨ht.toFollows, .inr ?_⟩
    rcases Nat.lt_or_eq_of_le ht.le with hlt | heq
    · exact .inl hlt
    · exact .inr ⟨rfl, heq, ht.dash rfl heq⟩
  obtain ⟨line', hread⟩ := @readItems_itemText true column k t is his hends i hi [] depth (line + 1)
    true (by omega)
  have hseek := @Cursor.seek_newline _ line (col + 1) false
    (i.isVisible (Item.textsAt column is ++ (List.replicate k ' ' ++ t))) column
  have hdone : Cursor.next ⟨t, line', k, true⟩ false = ⟨t, line', k, true⟩ :=
    Cursor.seek_of_isVisible ht.visible
  refine ⟨_, line', Eq.trans ?_ hread, hdone⟩
  rw [valueAfter, Item.textsAt_cons]
  simp only [Cursor.skip, Cursor.next, Mark.allowsKey, List.drop_succ_cons, List.drop_zero,
    List.cons_append, List.append_assoc, hseek]
  simp [hi.not_ended, hi.atWord, bind, Except.bind, pure, Except.pure]

end Sequence

/-! ## Blocks -/

/-- Where something is written: after a mark in a column, or from a column on. -/
inductive Site
  | after (mark : Mark)
  | here

/-- What is built of scalars on one line, mappings and sequences, each further in than what it is in.
Nothing at all may stand after a mark, a collection may stand on the line of a dash, and a sequence
in the column of its key. -/
inductive IsBlock : Site → Nat → List Char → Node → Prop
  | nothing {mark : Mark} {column : Nat} : IsBlock (.after mark) column ['\n'] .nothing
  | scalar {mark : Mark} {column : Nat} {cs : List Char} {node : Node} (blanks : Nat)
    (h : IsScalarText cs node) :
    IsBlock (.after mark) column (List.replicate (blanks + 1) ' ' ++ (cs ++ ['\n'])) node
  | indented {mark : Mark} {column inner : Nat} {cs : List Char} {node : Node}
    (hinner : column < inner) (h : IsBlock .here inner cs node) :
    IsBlock (.after mark) column ('\n' :: (List.replicate inner ' ' ++ cs)) node
  | compact {column blanks : Nat} {cs : List Char} {node : Node}
    (h : IsBlock .here (column + blanks + 2) cs node) :
    IsBlock (.after .dash) column (List.replicate (blanks + 1) ' ' ++ cs) node
  | flush {column : Nat} {i : Item} {is : List Item}
    (h : ∀ j ∈ i :: is, IsBlock (.after .dash) column j.body j.value) :
    IsBlock (.after .colon) column ('\n' :: Item.textsAt column (i :: is))
      (.sequence ((i :: is).map Item.value))
  | mapping {column : Nat} {e : Entry} {es : List Entry}
    (hkey : ∀ f ∈ e :: es, IsKeyText f.key f.name)
    (h : ∀ f ∈ e :: es, IsBlock (.after .colon) column f.body f.value) :
    IsBlock .here column (e.text ++ Entry.textsAt column es) (.mapping ((e :: es).map Entry.node))
  | sequence {column : Nat} {i : Item} {is : List Item}
    (h : ∀ j ∈ i :: is, IsBlock (.after .dash) column j.body j.value) :
    IsBlock .here column (i.text ++ Item.textsAt column is) (.sequence ((i :: is).map Item.value))

/-- What is written at a site is read there. -/
def Site.Reads (column : Nat) (cs : List Char) (node : Node) : Site → Prop
  | .after mark => HoldsAt mark column cs node
  | .here => StandsAt column cs node

/-- **A block is read as what it is built of.** -/
theorem IsBlock.reads {site : Site} {column : Nat} {cs : List Char} {node : Node}
    (h : IsBlock site column cs node) : site.Reads column cs node := by
  induction h with
  | nothing => exact holdsAt_nothing
  | scalar blanks h => exact h.readsAs.holdsAt blanks
  | indented hinner _ ih => exact StandsAt.holdsAt_indented ih hinner
  | compact _ ih => exact StandsAt.holdsAt_compact ih
  | flush _ ih => exact holdsAt_flush ih
  | mapping hkey _ ih => exact standsAt_mapping fun f hf => ⟨hkey f hf, ih f hf⟩
  | sequence _ ih => exact standsAt_sequence ih

/-- An entry of a mapping in a column whose value is built so. -/
structure Entry.IsBlockAt (column : Nat) (e : Entry) : Prop where
  key : IsKeyText e.key e.name
  value : IsBlock (.after .colon) column e.body e.value

theorem Entry.IsBlockAt.writtenAt {column : Nat} {e : Entry} (h : e.IsBlockAt column) :
    e.WrittenAt column := ⟨h.key, h.value.reads⟩

/-- A word and a scalar on one line. -/
theorem Entry.IsBlockAt.line {column : Nat} {key text : String} {value : Node}
    (hkey : isKey key.toList = true) (h : IsScalarText text.toList value) :
    (Entry.line key text value).IsBlockAt column := ⟨isKeyText_toList hkey, .scalar 0 h⟩

section Below

variable {mark : Mark} {column inner : Nat}

/-- A mapping on the lines after a mark. -/
theorem isBlock_entries (hinner : column < inner) {e : Entry} {es : List Entry}
    (h : ∀ f ∈ e :: es, f.IsBlockAt inner) : IsBlock (.after mark) column
      ('\n' :: Entry.textsAt inner (e :: es)) (.mapping ((e :: es).map Entry.node)) := by
  rw [Entry.textsAt_cons]
  exact .indented hinner (.mapping (fun f hf => (h f hf).key) fun f hf => (h f hf).value)

/-- A sequence on the lines after a mark. -/
theorem isBlock_items (hinner : column < inner) {i : Item} {is : List Item}
    (h : ∀ j ∈ i :: is, IsBlock (.after .dash) inner j.body j.value) : IsBlock (.after mark) column
      ('\n' :: Item.textsAt inner (i :: is)) (.sequence ((i :: is).map Item.value)) := by
  rw [Item.textsAt_cons]
  exact .indented hinner (.sequence h)

end Below

/-! ## Documents -/

/-- What a document keeps is not replaced. -/
theorem normalizeBreaks_eq {cs : List Char} (h : ∀ c ∈ cs, isKept c = true) :
    normalizeBreaks cs = cs := by
  induction cs with
  | nil => rfl
  | cons c cs ih =>
    obtain ⟨hc, hcs⟩ := List.forall_mem_cons.mp h
    simp only [isKept, Bool.and_eq_true, bne_iff_ne, ne_eq] at hc
    rw [normalizeBreaks.eq_def]
    split
    · simp_all
    · simp_all
    · simp_all

/-- A text is a document if what is written first in it is read up to the end. -/
theorem ofText_of_readNode {document cs : List Char} {column : Nat} {node : Node} {after : Cursor}
    (hkept : ∀ c ∈ document, isKept c = true)
    (hseek : Cursor.seek false false document 0 0 true = ⟨cs, 0, column, true⟩) (hne : cs ≠ [])
    (hmarker : ∀ mark ∈ ['-', '.'], Cursor.isMarker mark cs column = false)
    (hunmarked : ∀ c ∈ cs.head?, c ∉ ['&', '!', '|', '>'])
    (hread : readNode (4 * document.length + 16) (-1) ⟨cs, 0, column, true⟩ = .ok (node, after))
    (hend : after.rest = []) : Node.ofText (String.ofList document) = .ok node := by
  have hallowed : document.all isAllowed = true := List.all_eq_true.mpr fun c hc => by
    have hc := hkept c hc
    simp only [isKept, Bool.and_eq_true] at hc
    exact hc.1.1
  obtain ⟨c, more, rfl⟩ := List.exists_cons_of_ne_nil hne
  have hdash := hmarker '-' (by decide)
  have hpoint := hmarker '.' (by decide)
  have hmark := hunmarked c rfl
  simp only [List.mem_cons, List.not_mem_nil, or_false, not_or] at hmark
  have hskip (depth : Nat) : skipStops (depth + 1) (Cursor.start document)
      = ⟨c :: more, 0, column, true⟩ := by
    simp [skipStops, Cursor.start, Cursor.next, hseek, Cursor.atStop, hpoint]
  have hproperties : (Cursor.mk (c :: more) 0 column true).overProperties
      = .ok ⟨c :: more, 0, column, true⟩ := by
    simp [Cursor.overProperties, Cursor.atProperty, hmark, pure, Except.pure]
  have hstart : (Cursor.mk (c :: more) 0 column true).atStart = false := hdash
  have hended : (Cursor.mk (c :: more) 0 column true).ended = false := by
    simp [Cursor.ended, hstart, Cursor.atStop, hpoint]
  have hdone : (after.next false).rest = [] := by
    rw [Cursor.next, hend]
    rfl
  rw [Node.ofText, String.toList_ofList, hallowed, normalizeBreaks_eq hkept]
  simp only [Bool.not_true, Bool.false_eq_true, if_false, hskip, hstart, hproperties, bind,
    Except.bind, hended, hread, hdone]
  rfl

/-- An empty document is nothing. -/
theorem ofText_nil : Node.ofText (String.ofList []) = .ok .nothing := by cbv

/-- **A document of entries in a column is read as their mapping.** -/
theorem ofText_textsAt {column : Nat} {e : Entry} {es : List Entry}
    (h : ∀ f ∈ e :: es, f.WrittenAt column) :
    Node.ofText (String.ofList (Entry.textsAt column (e :: es)))
      = .ok (.mapping ((e :: es).map Entry.node)) := by
  have hstands := standsAt_mapping h
  obtain ⟨he, -⟩ := List.forall_mem_cons.mp h
  have hlength : (e.text ++ Entry.textsAt column es).length
      ≤ 4 * (Entry.textsAt column (e :: es)).length + 15 := by
    simp only [Entry.textsAt_cons, List.length_append, List.length_replicate]
    omega
  obtain ⟨line', hread⟩ := @StandsAt.read _ _ _ hstands _ 0 0 (-1) [] hlength (by omega)
    ⟨⟨Nat.zero_le _, by simp [IsVisible], rfl⟩, .inl rfl⟩
  rw [List.replicate_zero, List.append_nil, List.append_nil] at hread
  refine ofText_of_readNode (Entry.kept_textsAt h) ?_ hstands.ne_nil (fun mark hmark => ?_)
    hstands.unmarked hread rfl
  · rw [Entry.textsAt_cons, Cursor.seek_replicate hstands.visible, Nat.zero_add]
  · rw [Entry.text, List.append_assoc]
    exact he.key.isMarker hmark column

end TapeLife.Yaml
