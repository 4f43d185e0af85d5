import TapeLife.Files.Output
import TapeLife.Proofs.Files.Tree

/-!
# Proofs/Files/Output — writing to one file leaves the others alone

    create ──▸ append, flush ──▸ append, flush ──▸ …        contents = all that was appended

While a file is written, the tree changes at its place only, and no directory comes or goes
(`DiffersAt`).  So every path that does not lead to that place reads what it did before
(`DiffersAt.read`).  What is in the file and what waits are together all that was appended
(`OutputFile.Holds`), and when nothing waits the file can be read back as text
(`OutputFile.Holds.readText`).
-/

namespace TapeLife

/-! ## Text as bytes -/

theorem toList_loop (bytes : ByteArray) (i : Nat) (front : List UInt8) :
    ByteArray.toList.loop bytes i front = front.reverse ++ bytes.data.toList.drop i := by
  fun_induction ByteArray.toList.loop bytes i front with
  | case1 i front hlt ih =>
    have hi : i < bytes.data.toList.length := by simpa using hlt
    have hget : bytes.get! i = bytes.data.toList[i] := by
      rw [Array.getElem_toList]
      exact getElem!_pos bytes.data i (by simpa using hi)
    rw [ih, List.reverse_cons, List.append_assoc, List.drop_eq_getElem_cons hi, hget]
    rfl
  | case2 i front hge =>
    have hi : bytes.data.toList.length ≤ i := by simpa using Nat.le_of_not_lt hge
    rw [List.drop_of_length_le hi, List.append_nil]

theorem toList_eq_data (bytes : ByteArray) : bytes.toList = bytes.data.toList := by
  rw [ByteArray.toList, toList_loop]
  rfl

/-- The bytes of a text. -/
def textBytes (text : String) : List UInt8 := text.toUTF8.toList

theorem textBytes_append (s t : String) : textBytes (s ++ t) = textBytes s ++ textBytes t := by
  simp [textBytes, toList_eq_data]

theorem fromUTF8?_textBytes (text : String) :
    String.fromUTF8? (textBytes text).toByteArray = some text := by
  have hbytes : (textBytes text).toByteArray = text.toUTF8 :=
    ByteArray.ext (Array.toList_inj.mp (by
      rw [List.toList_data_toByteArray, textBytes, toList_eq_data]))
  rw [hbytes]
  exact dif_pos text.isValidUTF8

/-! ## Trees that differ at one place -/

namespace FileTree

variable {tree tree' tree'' : FileTree} {place : Location} {path : Path}

/-- Neither tree has a directory at the place, and they agree at all others. -/
structure DiffersAt (place : Location) (tree tree' : FileTree) : Prop where
  entry?_eq : ∀ other, other ≠ place → tree'.entry? other = tree.entry? other
  notDirectory : tree.entry? place ≠ some .directory
  notDirectory' : tree'.entry? place ≠ some .directory

namespace DiffersAt

theorem refl (h : tree.entry? place ≠ some .directory) : DiffersAt place tree tree :=
  ⟨fun _ _ => rfl, h, h⟩

theorem symm (h : DiffersAt place tree tree') : DiffersAt place tree' tree :=
  ⟨fun other hne => (h.entry?_eq other hne).symm, h.notDirectory', h.notDirectory⟩

theorem trans (h : DiffersAt place tree tree') (h' : DiffersAt place tree' tree'') :
    DiffersAt place tree tree'' :=
  ⟨fun other hne => (h'.entry?_eq other hne).trans (h.entry?_eq other hne), h.notDirectory,
    h'.notDirectory'⟩

theorem keeps (h : DiffersAt place tree tree') : tree.Keeps tree' := fun other hdirectory => by
  rw [h.entry?_eq other fun heq => h.notDirectory (heq ▸ hdirectory), hdirectory]

theorem locate (h : DiffersAt place tree tree') {last : Location}
    (hlocate : tree.locate path = .ok last) : tree'.locate path = .ok last := by
  obtain ⟨hempty, hnul, hfollow⟩ := locate_eq_ok.mp hlocate
  exact locate_eq_ok.mpr ⟨hempty, hnul, follow_of_keeps h.keeps hfollow⟩

/-- **A path that leads elsewhere reads what it did before**, if it reads anything. -/
theorem read (h : DiffersAt place tree tree') (hpath : tree.locate path ≠ .ok place) :
    (tree'.read path).toOption = (tree.read path).toOption := by
  have herror : ∀ {t : FileTree}, (∀ last, t.locate path ≠ .ok last) →
      (t.read path).toOption = none := fun {t} hnone => by
    cases hlocate : t.locate path with
    | ok last => exact absurd hlocate (hnone last)
    | error cause => rw [FileTree.read, find, hlocate]; rfl
  cases hlocate : tree.locate path with
  | ok last =>
    have hentry := h.entry?_eq last fun heq => hpath (heq ▸ hlocate)
    rw [FileTree.read, FileTree.read, find, find, hlocate, h.locate hlocate]
    simp only [bind, Except.bind, hentry]
  | error cause =>
    have hnone : ∀ last, tree.locate path ≠ .ok last := fun last heq => by
      rw [hlocate] at heq
      cases heq
    rw [herror hnone, herror fun last heq => hnone last (h.symm.locate heq)]

theorem put (h : tree.entry? place ≠ some .directory) (contents : List UInt8) :
    DiffersAt place tree (tree.put place (.file contents)) where
  entry?_eq other hne := by rw [entry?_put h, if_neg hne]
  notDirectory := h
  notDirectory' := by
    rw [entry?_put h, if_pos rfl]
    exact fun heq => by cases heq

end DiffersAt

/-- What is known of a file that was created. -/
theorem create_eq_ok (h : tree.create path = .ok (place, tree')) :
    tree.locate path = .ok place ∧ path.endsInSlash = false ∧
      tree.entry? place ≠ some .directory ∧ tree' = tree.put place (.file []) := by
  obtain ⟨found, hlocate, hrest⟩ := Except.bind_eq_ok_iff.mp h
  split at hrest
  · cases hrest
  rename_i hname
  split at hrest
  · cases hrest
  rename_i hentry
  obtain ⟨rfl, rfl⟩ := Prod.mk.inj (Except.ok.inj hrest)
  simp only [Bool.or_eq_true, not_or, Bool.not_eq_true] at hname
  exact ⟨hlocate, hname.1, hentry, rfl⟩

/-- Bytes behind the last one. -/
theorem writeAt_length {contents : List UInt8} (h : tree.entry? place = some (.file contents))
    (bytes : List UInt8) : tree.writeAt place contents.length bytes
      = tree.put place (.file (contents ++ bytes)) := by
  have hrest : contents.drop (contents.length + bytes.length) = [] :=
    List.drop_of_length_le (Nat.le_add_right ..)
  rw [writeAt, h]
  simp [hrest]

end FileTree

/-! ## Files that are written -/

namespace OutputFile

open FileTree

variable {tree : FileTree} {out : OutputFile} {text : String}

/-- What is in the file and what waits are together a text. -/
def Holds (tree : FileTree) (out : OutputFile) (text : String) : Prop :=
  ∃ contents, tree.entry? out.place = some (.file contents) ∧ out.written = contents.length ∧
    contents ++ out.waiting = textBytes text

theorem holds_start {place : Location} (h : tree.entry? place = some (.file [])) (text : String) :
    Holds tree (.start place text) text := ⟨[], h, rfl, rfl⟩

theorem Holds.append (h : Holds tree out text) (more : String) :
    Holds tree (out.append more) (text ++ more) := by
  obtain ⟨contents, hentry, hwritten, htext⟩ := h
  exact ⟨contents, hentry, hwritten, by
    rw [textBytes_append, ← htext, List.append_assoc]; rfl⟩

/-- **A flush writes what waits** behind what is there, and at no other place. -/
theorem Holds.flush (h : Holds tree out text) :
    Holds (out.flush tree).1 (out.flush tree).2 text ∧ (out.flush tree).2.waiting = [] ∧
      (out.flush tree).2.place = out.place ∧ DiffersAt out.place tree (out.flush tree).1 := by
  obtain ⟨contents, hentry, hwritten, htext⟩ := h
  have hfile : tree.entry? out.place ≠ some .directory := fun heq => by
    rw [hentry] at heq
    cases heq
  rw [OutputFile.flush]
  split
  · rename_i hempty
    exact ⟨⟨contents, hentry, hwritten, htext⟩, List.isEmpty_iff.mp hempty, rfl, .refl hfile⟩
  · rw [hwritten, writeAt_length hentry]
    refine ⟨⟨contents ++ out.waiting, ?_, ?_, ?_⟩, rfl, rfl, .put hfile _⟩
    · rw [entry?_put hfile, if_pos rfl]
    · rw [List.length_append]
    · rw [List.append_nil, htext]

/-- **A file in which nothing waits is read back as the text that was written.** -/
theorem Holds.readText (h : Holds tree out text) (hwaiting : out.waiting = []) {path : Path}
    (hlocate : tree.locate path = .ok out.place) (hslash : path.endsInSlash = false) :
    tree.readText path = .ok text := by
  obtain ⟨contents, hentry, -, htext⟩ := h
  rw [hwaiting, List.append_nil] at htext
  subst htext
  rw [FileTree.readText, read_eq_ok hlocate hentry hslash]
  simp only [bind, Except.bind, fromUTF8?_textBytes]

end OutputFile

end TapeLife
