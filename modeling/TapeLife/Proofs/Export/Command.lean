import Mathlib.Tactic.SplitIfs
import TapeLife.Export.Command
import TapeLife.Proofs.Checkpoint.Listing
import TapeLife.Proofs.Export.Rows
import TapeLife.Proofs.Files.Output
import TapeLife.Proofs.Saved.Soup

/-!
# Proofs/Export/Command — an export is its files one after the other

    heading ++ table 0 ++ table 1 ++ …        a file that cannot be read: nothing

One soup takes in all files, and what it was before plays no part: loading replaces all of it or
nothing (`Grid.loadFrom_cases`).  So one file adds the table of the soup that is saved in it,
whatever happened to those before (`Exporting.Underway.file`), and a whole export is the heading and
the tables of its files (`Export.follow_concatenates`).
-/

namespace TapeLife

/-! ## Every nth -/

section

variable {α : Type} {stride : Nat}

/-- Members from a number on: the first that is listed lies `ahead` places further. -/
theorem getElem?_everyNth_from (items : List α) (start : Nat) {ahead : Nat}
    (hahead : ahead < stride) (hstart : (start + ahead) % stride = 0) (k : Nat) :
    ((items.zipIdx start).filterMap fun (a, i) => if i % stride = 0 then some a else none)[k]?
      = items[k * stride + ahead]? := by
  induction items generalizing start ahead k with
  | nil => simp
  | cons a items ih =>
    rw [List.zipIdx_cons, List.filterMap_cons]
    cases ahead with
    | zero =>
      have hnext : (start + 1 + (stride - 1)) % stride = 0 := by
        rw [show start + 1 + (stride - 1) = start + 0 + stride by omega, Nat.add_mod_right, hstart]
      rw [Nat.add_zero] at hstart
      simp only [if_pos hstart]
      cases k with
      | zero => simp
      | succ k =>
        rw [List.getElem?_cons_succ, ih (start + 1) (by omega) hnext,
          show (k + 1) * stride + 0 = k * stride + (stride - 1) + 1 by rw [Nat.succ_mul]; omega,
          List.getElem?_cons_succ]
    | succ ahead =>
      have hskip : start % stride ≠ 0 := fun hzero => by
        rw [Nat.add_mod, hzero, Nat.zero_add, Nat.mod_mod, Nat.mod_eq_of_lt hahead] at hstart
        cases hstart
      have hnext : (start + 1 + ahead) % stride = 0 := by
        rwa [show start + 1 + ahead = start + (ahead + 1) by omega]
      simp only [if_neg hskip]
      rw [ih (start + 1) (by omega) hnext, ← Nat.add_assoc, List.getElem?_cons_succ]

/-- **Every nth member, the first one first.** -/
theorem getElem?_everyNth (hstride : 0 < stride) (items : List α) (k : Nat) :
    (everyNth stride items)[k]? = items[k * stride]? :=
  getElem?_everyNth_from items 0 hstride (Nat.zero_mod stride) k

end

/-! ## Options -/

/-- A stride that goes on, and no more bytes than a tape has. -/
def PartialOptions.InRange (p : PartialOptions) : Prop := 0 < p.stride ∧ p.bytesShown ≤ tapeSize

theorem inRange_of_read {arguments : List String} {p p' : PartialOptions}
    (h : readExportArguments arguments p = .ok p') (hp : p.InRange) : p'.InRange := by
  fun_induction readExportArguments arguments p with
  | case1 | case2 | case4 => exact Except.ok.inj h ▸ hp
  | case3 _ _ _ _ _ ih | case5 _ _ _ _ _ _ ih | case13 _ _ _ _ _ _ _ _ ih => exact ih h hp
  | case9 _ _ _ _ _ _ _ n hn _ ih => exact ih h ⟨Nat.pos_of_ne_zero hn, hp.2⟩
  | case12 _ _ _ _ _ _ _ _ _ _ ih => exact ih h ⟨hp.1, Nat.min_le_right ..⟩
  | _ => cases h

/-- **What arguments ask for is in range.** -/
theorem ExportOptions.inRange_ofArguments {arguments : List String} {o : ExportOptions}
    (h : ofArguments arguments = .ok o) : 0 < o.stride ∧ o.table.bytesShown ≤ tapeSize := by
  obtain ⟨p, hread, hrest⟩ := Except.bind_eq_ok_iff.mp h
  have hp := inRange_of_read hread ⟨Nat.one_pos, Nat.zero_le _⟩
  split at hrest
  · cases hrest
  · cases hrest
  · obtain rfl := Except.ok.inj hrest
    exact hp

/-- **The files of an export**: the input itself, or every nth of the checkpoints in a directory. -/
theorem ExportOptions.files_eq_ok (o : ExportOptions) (tree : FileTree) (hstride : 0 < o.stride) :
    ∃ files, o.files tree = .ok files ∧
      if tree.isDirectory o.input then
        ∃ found, tree.checkpoints o.input = .ok found ∧
          ∀ k, files[k]? = found[k * o.stride]?.map (·.2)
      else files = [o.input] := by
  rw [ExportOptions.files]
  split_ifs with hdirectory
  · obtain ⟨found, hfound⟩ := FileTree.exists_checkpoints_eq_ok hdirectory
    refine ⟨everyNth o.stride (found.map (·.2)), by rw [hfound]; rfl, found, hfound, fun k => ?_⟩
    rw [getElem?_everyNth hstride, List.getElem?_map]
  · exact ⟨_, rfl, rfl⟩

/-! ## One file after the other -/

/-- The soup that is saved in a file, if one is. -/
def FileTree.saved? (tree : FileTree) (path : Path) : Option Grid :=
  (tree.read path).toOption.bind fun bytes => (Grid.ofSaved bytes).toOption

/-- The rows that a file has in a table. -/
def FileTree.rowsIn (options : TableOptions) (tree : FileTree) (path : Path) : List String :=
  ((tree.saved? path).map (Grid.rows options)).getD []

/-- Rows as they are written. -/
def textOf (rows : List String) : String := String.join (rows.map (· ++ "\n"))

namespace Exporting

open FileTree

variable {tree : FileTree} {place : Location} {text : String} {e : Exporting}

/-- An export that has written a text to the file at a place, and nothing anywhere else.  The soup
may be any. -/
structure Underway (tree : FileTree) (place : Location) (text : String) (e : Exporting) : Prop where
  place_eq : e.out.place = place
  holds : e.out.Holds e.tree text
  differs : DiffersAt place tree e.tree

theorem underway_start {created : FileTree} {path : Path} (options : TableOptions)
    (h : tree.create path = .ok (place, created)) :
    (start options created place).Underway tree place (tableHeading options ++ "\n") := by
  obtain ⟨-, -, hentry, rfl⟩ := create_eq_ok h
  have hfile : entry? (tree.put place (.file [])) place = some (.file []) := by
    rw [entry?_put hentry, if_pos rfl]
  exact ⟨rfl, OutputFile.holds_start hfile _, .put hentry []⟩

/-- What a file is found to hold does not depend on what was written elsewhere. -/
theorem Underway.saved?_eq (h : e.Underway tree place text) {path : Path}
    (hpath : tree.locate path ≠ .ok place) : e.tree.saved? path = tree.saved? path := by
  rw [saved?, saved?, h.differs.read hpath]

/-- **One file adds the rows of the soup that is saved in it.** -/
theorem Underway.file (h : e.Underway tree place text) (options : TableOptions) {path : Path}
    (hpath : tree.locate path ≠ .ok place) :
    (e.file options path).Underway tree place (text ++ textOf (tree.rowsIn options path)) := by
  have hsaved := h.saved?_eq hpath
  obtain ⟨bytes, loaded, hread, hdecode, hload⟩ | ⟨⟨cause, hload⟩, hnone⟩ :=
    e.grid.loadFrom_cases e.tree path
  · have hrows : tree.rowsIn options path = loaded.rows options := by
      rw [rowsIn, ← hsaved, saved?, hread]
      simp [Except.toOption, hdecode]
    have htable : (loaded.table options).text = textOf (loaded.rows options) := by
      rw [table_eq, textOf]
    obtain ⟨hholds, -, hplace, hdiffers⟩ := (h.holds.append (textOf (loaded.rows options))).flush
    rw [Exporting.file, hload, hrows]
    dsimp only
    rw [htable]
    exact ⟨hplace.trans h.place_eq, hholds, h.differs.trans (h.place_eq ▸ hdiffers)⟩
  · have hrows : tree.rowsIn options path = [] := by
      rw [rowsIn, ← hsaved, saved?]
      cases hread : e.tree.read path with
      | error cause => rfl
      | ok bytes =>
        cases hdecode : Grid.ofSaved bytes with
        | error cause => simp [Except.toOption, hdecode]
        | ok loaded => exact absurd ⟨bytes, loaded, hread, hdecode⟩ hnone
    rw [Exporting.file, hload, hrows]
    exact ⟨h.place_eq, by simpa [textOf] using h.holds, h.differs⟩

/-- **Files add their rows, one after the other.** -/
theorem Underway.foldl_file (h : e.Underway tree place text) (options : TableOptions)
    {files : List Path} (hfiles : ∀ path ∈ files, tree.locate path ≠ .ok place) :
    (files.foldl (Exporting.file options) e).Underway tree place
      (text ++ textOf (files.flatMap (tree.rowsIn options))) := by
  induction files generalizing e text with
  | nil => simpa [textOf] using h
  | cons path files ih =>
    obtain ⟨hpath, hrest⟩ := List.forall_mem_cons.mp hfiles
    have hnext := ih (h.file options hpath) hrest
    rwa [String.append_assoc, textOf, textOf, ← String.join_append, ← List.map_append] at hnext

end Exporting

namespace Export

open FileTree

/-- **An export is its files one after the other.**  If the arguments can be understood, the files
to export are found: the input itself or, if it is a directory, every nth of its checkpoints from
the first on.  If there are any, and the table can be created where none of them is, the export
succeeds, and the table is the heading and then, file by file, the rows of the soup that is saved in
the file; a file that is not there or holds no soup has no rows and takes none from another. -/
theorem follow_concatenates {arguments : List String} {o : ExportOptions} (tree : FileTree)
    (ho : ExportOptions.ofArguments arguments = .ok o) :
    0 < o.stride ∧ o.table.bytesShown ≤ 64 ∧
    ∃ files, o.files tree = .ok files ∧
      (if tree.isDirectory o.input then
        ∃ found, tree.checkpoints o.input = .ok found ∧
          ∀ k, files[k]? = found[k * o.stride]?.map (·.2)
      else files = [o.input]) ∧
      ∀ place created, files ≠ [] → tree.create o.output = .ok (place, created) →
        (∀ path ∈ files, tree.locate path ≠ .ok place) →
        (follow arguments tree).exitCode = 0 ∧
          (follow arguments tree).tree.readText o.output = .ok (tableHeading o.table ++ "\n" ++
            textOf (files.flatMap fun path => match tree.saved? path with
              | some g => g.rows o.table
              | none => [])) := by
  obtain ⟨hstride, hbytes⟩ := ExportOptions.inRange_ofArguments ho
  obtain ⟨files, hfiles, hchosen⟩ := o.files_eq_ok tree hstride
  refine ⟨hstride, hbytes, files, hfiles, hchosen, fun place created hne hcreate hout => ?_⟩
  obtain ⟨hlocate, hslash, -, -⟩ := create_eq_ok hcreate
  obtain ⟨hplace, hholds, hdiffers⟩ :=
    (Exporting.underway_start o.table hcreate).foldl_file o.table hout
  obtain ⟨hwritten, hwaiting, hplace', hdiffers'⟩ := hholds.flush
  rw [hplace] at hplace' hdiffers'
  have hread := hwritten.readText hwaiting
    (hplace'.symm ▸ (hdiffers.trans hdiffers').locate hlocate) hslash
  have hrows : tree.rowsIn o.table = fun path => match tree.saved? path with
      | some g => g.rows o.table
      | none => [] := by
    funext path
    rw [rowsIn]
    cases tree.saved? path <;> rfl
  rw [hrows] at hread
  obtain ⟨first, rest, rfl⟩ := List.exists_cons_of_ne_nil hne
  simp only [follow, ho, hfiles, hcreate]
  exact ⟨trivial, hread⟩

/-- A directory of two checkpoints, of which the first is broken. -/
def mixedTree : FileTree :=
  ⟨[(["saves"], .directory), (["saves", "checkpoint_epoch_2.bfsw"], .file Grid.square.save),
    (["saves", "checkpoint_epoch_1.bfsw"], .file [0x42])]⟩

/-- The table of a directory with a broken checkpoint and a good one is the table of the good one. -/
theorem follow_concatenates_mixedTree :
    let arguments := ["--input", "saves", "--out", "table.csv"]
    ExportOptions.ofArguments arguments = .ok ⟨"saves", "table.csv", 1, ⟨0, false⟩⟩ ∧
      mixedTree.checkpoints "saves"
        = .ok [(1, "saves/checkpoint_epoch_1.bfsw"), (2, "saves/checkpoint_epoch_2.bfsw")] ∧
      (follow arguments mixedTree).exitCode = 0 ∧
      (follow arguments mixedTree).tree.readText "table.csv"
        = .ok (tableHeading ⟨0, false⟩ ++ "\n" ++ textOf (Grid.square.rows ⟨0, false⟩)) := by
  intro arguments
  have ho : ExportOptions.ofArguments arguments = .ok ⟨"saves", "table.csv", 1, ⟨0, false⟩⟩ := rfl
  have hlist : mixedTree.list "saves"
      = .ok ["checkpoint_epoch_2.bfsw", "checkpoint_epoch_1.bfsw"] := by decide +kernel
  have hlines : lines "saves" ["checkpoint_epoch_2.bfsw", "checkpoint_epoch_1.bfsw"]
      = [(2, "saves/checkpoint_epoch_2.bfsw"), (1, "saves/checkpoint_epoch_1.bfsw")] := by
    decide +kernel
  have hlater : listedBefore (2, "saves/checkpoint_epoch_2.bfsw")
      (1, "saves/checkpoint_epoch_1.bfsw") = false := by decide +kernel
  have hfound : mixedTree.checkpoints "saves"
      = .ok [(1, "saves/checkpoint_epoch_1.bfsw"), (2, "saves/checkpoint_epoch_2.bfsw")] := by
    refine checkpoints_eq_ok_iff.mpr ⟨_, hlist, ?_⟩
    rw [hlines]
    simp [List.mergeSort, List.MergeSort.Internal.splitInTwo, List.splitAt, List.splitAt.go, hlater]
  have hdirectory : mixedTree.isDirectory "saves" = true := by decide +kernel
  obtain ⟨-, -, files, hfiles, -, hall⟩ := follow_concatenates mixedTree ho
  have hboth : files = ["saves/checkpoint_epoch_1.bfsw", "saves/checkpoint_epoch_2.bfsw"] := by
    rw [ExportOptions.files, if_pos hdirectory, hfound] at hfiles
    exact (Except.ok.inj hfiles).symm
  subst hboth
  obtain ⟨hcode, htext⟩ := hall ["table.csv"] (mixedTree.put ["table.csv"] (.file []))
    (List.cons_ne_nil _ _) rfl (by decide +kernel)
  have hbroken : mixedTree.saved? "saves/checkpoint_epoch_1.bfsw" = none := rfl
  have hgood : mixedTree.saved? "saves/checkpoint_epoch_2.bfsw" = some Grid.square := by
    rw [saved?, show mixedTree.read "saves/checkpoint_epoch_2.bfsw" = .ok Grid.square.save from rfl]
    simp [Except.toOption, Grid.ofSaved_save Grid.wellFormed_square]
  refine ⟨ho, hfound, hcode, ?_⟩
  rw [htext, List.flatMap_cons, List.flatMap_cons, hbroken, hgood]
  simp

end Export

end TapeLife
