import TapeLife.Checkpoint.Schedule
import TapeLife.Proofs.Checkpoint.Name
import TapeLife.Proofs.Files.Tree

/-!
# Proofs/Checkpoint/Directory — a directory of nothing but checkpoints

    empty directory ──write──▸ {e₁} ──write──▸ {e₁, e₂} ──▸ …

A directory without entries takes checkpoints, and a `Shelf` says which epochs are there and with
which bytes.  Every write succeeds and changes the shelf and nothing else (`writeDeep_stocked`);
what is on the shelf is read back (`read_stocked`), is listed (`list_stocked`), and the latest
checkpoint is the one of the largest epoch (`latestCheckpoint?_stocked`).  A directory that is
missing will do as well if it can be made (`Vacant.exists_takes`).
-/

namespace TapeLife

/-- Checkpoints in a directory: their epochs and their bytes. -/
abbrev Shelf := List (UInt32 × List UInt8)

namespace Shelf

variable {shelf : Shelf} {epoch : UInt32} {bytes : List UInt8}

/-- The shelf with the checkpoint of an epoch, whatever was there for it before. -/
def store (shelf : Shelf) (epoch : UInt32) (bytes : List UInt8) : Shelf :=
  shelf.filter (·.1 != epoch) ++ [(epoch, bytes)]

theorem lookup_store_self (shelf : Shelf) (epoch : UInt32) (bytes : List UInt8) :
    (shelf.store epoch bytes).lookup epoch = some bytes := by
  rw [store, lookup_replace, beq_self_eq_true, if_pos rfl]

/-- Other epochs keep their checkpoints. -/
theorem lookup_store_of_ne {e : UInt32} (hne : e ≠ epoch) (shelf : Shelf) (bytes : List UInt8) :
    (shelf.store epoch bytes).lookup e = shelf.lookup e := by
  rw [store, lookup_replace, beq_false_of_ne hne, if_neg Bool.false_ne_true]

/-- No epoch is on a shelf twice, if none was before. -/
theorem nodup_store (h : (shelf.map (·.1)).Nodup) (epoch : UInt32) (bytes : List UInt8) :
    ((shelf.store epoch bytes).map (·.1)).Nodup := by
  have hrest : ((shelf.filter (·.1 != epoch)).map (·.1)).Nodup :=
    h.sublist (List.filter_sublist.map _)
  have hne : ∀ e ∈ (shelf.filter (·.1 != epoch)).map (·.1), e ≠ epoch := by simp
  rw [store, List.map_append, List.map_singleton, List.nodup_append]
  refine ⟨hrest, by simp, fun e he e' he' => ?_⟩
  exact List.mem_singleton.mp he' ▸ hne e he

theorem mem_epochs_of_lookup (h : shelf.lookup epoch = some bytes) :
    epoch ∈ shelf.map (·.1) := by
  obtain ⟨front, behind, rfl, -⟩ := List.lookup_eq_some_iff.mp h
  simp

theorem store_store (shelf : Shelf) (epoch : UInt32) (bytes bytes' : List UInt8) :
    (shelf.store epoch bytes).store epoch bytes' = shelf.store epoch bytes' := by
  simp [store, List.filter_append]

/-- The names of checkpoints with their epochs on a shelf. -/
theorem mem_names {name : String} : name ∈ shelf.map (fun saved => checkpointName saved.1) ↔
    ∃ e, e ∈ shelf.map (·.1) ∧ name = checkpointName e := by
  simp only [List.mem_map]
  grind

theorem nodup_names (h : (shelf.map (·.1)).Nodup) :
    (shelf.map fun saved => checkpointName saved.1).Nodup := by
  rw [← Function.comp_def checkpointName, ← List.map_map]
  exact List.Pairwise.map checkpointName (fun _ _ => mt checkpointName_inj.mp) h

theorem mem_epochs_store {e : UInt32} :
    e ∈ (shelf.store epoch bytes).map (·.1) ↔ e ∈ shelf.map (·.1) ∨ e = epoch := by
  by_cases h : e = epoch <;> simp [store, h]

end Shelf

namespace FileTree

variable {tree : FileTree} {directory : Path} {base : Location} {shelf : Shelf} {epoch : UInt32}

/-- The tree with checkpoints in the directory at a place. -/
def stocked (tree : FileTree) (base : Location) (shelf : Shelf) : FileTree :=
  ⟨tree.entries ++ shelf.map fun saved => (base ++ [checkpointName saved.1], .file saved.2)⟩

theorem stocked_nil (tree : FileTree) (base : Location) : tree.stocked base [] = tree := by
  rw [stocked, List.map_nil, List.append_nil]

/-- The path names a directory, and nothing is in it. -/
structure IsEmptyDirectory (tree : FileTree) (directory : Path) (base : Location) : Prop where
  found : tree.find directory = .ok (base, .directory)
  dropLast_ne : ∀ entry ∈ tree.entries, entry.1 ≠ [] → entry.1 ≠ ["/"] → entry.1.dropLast ≠ base

theorem isEmptyDirectory_of_list (h : tree.list directory = .ok []) :
    ∃ base, tree.IsEmptyDirectory directory base := by
  obtain ⟨⟨base, entry⟩, hfind, hlist⟩ := Except.bind_eq_ok_iff.mp h
  cases entry with
  | file contents => cases hlist
  | directory =>
    refine ⟨base, hfind, fun entry hentry hne hroot hbase => ?_⟩
    simp only [Except.ok.injEq, List.filterMap_eq_nil_iff] at hlist
    have hnone := hlist entry hentry
    rw [List.getLast?_eq_some_getLast hne] at hnone
    simp [hbase, hroot] at hnone

/-! ## The places of checkpoints -/

theorem place_ne_nil : base ++ [checkpointName epoch] ≠ [] := by simp

theorem place_ne_root : base ++ [checkpointName epoch] ≠ ["/"] := by
  intro h
  have hlast := congrArg List.getLast? h
  rw [List.getLast?_concat] at hlast
  exact checkpointName_ne (by decide) (Option.some.inj hlast)

theorem place_inj {e e' : UInt32} :
    base ++ [checkpointName e] = base ++ [checkpointName e'] ↔ e = e' := by
  rw [List.append_cancel_left_eq, List.singleton_inj, checkpointName_inj]

/-- Checkpoints hide nothing that is there already. -/
theorem keeps_stocked (tree : FileTree) (base : Location) (shelf : Shelf) :
    tree.Keeps (tree.stocked base shelf) := by
  intro place hplace
  unfold entry? at hplace ⊢
  split at hplace
  · rename_i hroot
    rw [if_pos hroot]
  · rename_i hroot
    rw [if_neg hroot, stocked, List.lookup_append, hplace]
    rfl

namespace IsEmptyDirectory

variable (h : tree.IsEmptyDirectory directory base)
include h

theorem lookup_eq_none (epoch : UInt32) :
    tree.entries.lookup (base ++ [checkpointName epoch]) = none := by
  rw [List.lookup_eq_none_iff]
  rintro ⟨place, entry⟩ hentry
  rw [bne_iff_ne]
  rintro rfl
  exact h.dropLast_ne _ hentry place_ne_nil place_ne_root List.dropLast_concat

/-- **At the place of a checkpoint is what the shelf says.** -/
theorem entry?_stocked (shelf : Shelf) (epoch : UInt32) :
    entry? (tree.stocked base shelf) (base ++ [checkpointName epoch])
      = (shelf.lookup epoch).map .file := by
  rw [entry?_eq_lookup place_ne_nil place_ne_root, stocked, List.lookup_append,
    h.lookup_eq_none, Option.none_or]
  induction shelf with
  | nil => rfl
  | cons saved shelf ih =>
    obtain ⟨e, bytes⟩ := saved
    rw [List.map_cons, List.lookup_cons, List.lookup_cons, ih]
    by_cases he : epoch = e
    · subst he
      simp
    · rw [beq_false_of_ne he, beq_false_of_ne (mt place_inj.mp he)]

theorem put_stocked (shelf : Shelf) (epoch : UInt32) (bytes : List UInt8) :
    (tree.stocked base shelf).put (base ++ [checkpointName epoch]) (.file bytes)
      = tree.stocked base (shelf.store epoch bytes) := by
  have hentries : tree.entries.filter (·.1 != base ++ [checkpointName epoch]) = tree.entries := by
    refine List.filter_eq_self.mpr fun entry hentry => ?_
    have hnone := List.lookup_eq_none_iff.mp (h.lookup_eq_none epoch) entry hentry
    rwa [bne_comm]
  have hshelf : ∀ saved : UInt32 × List UInt8,
      (base ++ [checkpointName saved.1] != base ++ [checkpointName epoch])
        = (saved.1 != epoch) := by
    intro saved
    rw [Bool.eq_iff_iff, bne_iff_ne, bne_iff_ne, Ne, place_inj]
  simp only [stocked, put, Shelf.store, List.filter_append, hentries, List.filter_map,
    Function.comp_def, hshelf, List.map_append, List.map_singleton, List.append_assoc]

theorem find_stocked (shelf : Shelf) :
    (tree.stocked base shelf).find directory = .ok (base, .directory) :=
  find_of_keeps (keeps_stocked tree base shelf) h.found

theorem locate_stocked (shelf : Shelf) (epoch : UInt32) :
    (tree.stocked base shelf).locate (checkpointPath directory epoch)
      = .ok (base ++ [checkpointName epoch]) :=
  locate_join (h.find_stocked shelf) (isStep_checkpointName epoch) (checkpointName_ne (by decide))
    (checkpointName_ne (by decide)) (nul_notMem_checkpointName epoch)
    (utf8ByteSize_checkpointName_le epoch)

/-! ## Writing -/

/-- **A checkpoint is written** where its path says, in place of an earlier one. -/
theorem write_stocked (shelf : Shelf) (epoch : UInt32) (bytes : List UInt8) :
    (tree.stocked base shelf).write (checkpointPath directory epoch) bytes
      = (tree.stocked base (shelf.store epoch bytes), none) := by
  have hdirectory := ne_empty_of_find h.found
  have hname := isStep_checkpointName epoch
  have hslash : (checkpointPath directory epoch).endsInSlash = false :=
    Path.endsInSlash_join hdirectory hname
  have hends : endsInName (checkpointPath directory epoch) = true := by
    rw [endsInName, checkpointPath, Path.steps_join hdirectory hname, List.getLast?_concat]
    simp [@checkpointName_ne epoch "." (by decide), @checkpointName_ne epoch ".." (by decide)]
  have hcreate : (tree.stocked base shelf).create (checkpointPath directory epoch)
      = .ok (base ++ [checkpointName epoch], tree.stocked base (shelf.store epoch [])) := by
    rw [create, h.locate_stocked]
    simp only [bind, Except.bind, hslash, hends, h.entry?_stocked, h.put_stocked]
    cases shelf.lookup epoch <;> rfl
  rw [write, hcreate]
  simp only [writeAt, h.entry?_stocked, Shelf.lookup_store_self, Option.map_some, h.put_stocked,
    Shelf.store_store]
  simp

theorem makeParents_stocked (shelf : Shelf) (epoch : UInt32) :
    (tree.stocked base shelf).makeParents (checkpointPath directory epoch)
      = (tree.stocked base shelf, none) :=
  makeParents_join (h.find_stocked shelf) (isStep_checkpointName epoch)
    (checkpointName_ne (by decide))

theorem writeDeep_stocked (shelf : Shelf) (epoch : UInt32) (bytes : List UInt8) :
    (tree.stocked base shelf).writeDeep (checkpointPath directory epoch) bytes
      = (tree.stocked base (shelf.store epoch bytes), none) := by
  rw [writeDeep, h.makeParents_stocked]
  exact h.write_stocked shelf epoch bytes

/-! ## Reading -/

/-- **What is on the shelf is read back.** -/
theorem read_stocked {bytes : List UInt8} (hbytes : shelf.lookup epoch = some bytes) :
    (tree.stocked base shelf).read (checkpointPath directory epoch) = .ok bytes := by
  have hslash : (checkpointPath directory epoch).endsInSlash = false :=
    Path.endsInSlash_join (ne_empty_of_find h.found) (isStep_checkpointName epoch)
  have hentry := h.entry?_stocked shelf epoch
  rw [hbytes, Option.map_some] at hentry
  exact read_eq_ok (h.locate_stocked shelf epoch) hentry hslash

/-- The names in the directory are those on the shelf. -/
theorem list_stocked (shelf : Shelf) :
    (tree.stocked base shelf).list directory
      = .ok (shelf.map fun saved => checkpointName saved.1) := by
  rw [list, h.find_stocked]
  simp only [bind, Except.bind, stocked, List.filterMap_append, List.filterMap_map,
    Function.comp_def, List.getLast?_concat, List.dropLast_concat, true_and, ne_eq, place_ne_root,
    not_false_eq_true, if_true, List.filterMap_eq_map']
  refine congrArg Except.ok (List.append_left_eq_self.mpr ?_)
  refine List.filterMap_eq_nil_iff.mpr fun entry hentry => ?_
  split
  · rename_i name hname
    have hne : entry.1 ≠ [] := by
      intro hnil
      rw [hnil] at hname
      cases hname
    exact if_neg fun hin => h.dropLast_ne entry hentry hne hin.2 hin.1
  · rfl

/-! ## The latest checkpoint -/

theorem checkpoints_stocked (shelf : Shelf) :
    (tree.stocked base shelf).checkpoints directory
      = .ok ((shelf.map fun saved => (saved.1, checkpointPath directory saved.1)).mergeSort
          listedBefore) := by
  rw [checkpoints, h.list_stocked]
  simp only [bind, Except.bind, List.filterMap_map, Function.comp_def,
    checkpointEpoch?_checkpointName, Option.map_some, List.filterMap_eq_map']
  rfl

/-- **The latest checkpoint is the one of the largest epoch.** -/
theorem latestCheckpoint?_stocked (hepoch : epoch ∈ shelf.map (·.1))
    (hlatest : ∀ e ∈ shelf.map (·.1), e ≤ epoch) :
    (tree.stocked base shelf).latestCheckpoint? directory
      = some (checkpointPath directory epoch) := by
  rw [latestCheckpoint?, h.checkpoints_stocked]
  simp only
  rw [@getLast?_mergeSort_listedBefore _ (epoch, checkpointPath directory epoch), Option.map_some]
  · obtain ⟨saved, hsaved, rfl⟩ := List.mem_map.mp hepoch
    exact List.mem_map_of_mem hsaved
  · intro other hother
    obtain ⟨saved, hsaved, rfl⟩ := List.mem_map.mp hother
    have hle : saved.1 ≤ epoch := hlatest saved.1 (List.mem_map_of_mem hsaved)
    rw [listedBefore_iff]
    by_cases heq : saved.1 = epoch
    · subst heq
      exact .inr ⟨rfl, String.le_refl _⟩
    · exact .inl (UInt32.lt_of_le_of_ne hle heq)

end IsEmptyDirectory

/-! ## Directories that are there, or can be made -/

/-- Checkpoints can be written into the directory, which is made for them if it is missing, and
nothing else is in it then. -/
structure Vacant (tree : FileTree) (directory : Path) : Prop where
  writable : ∀ epoch bytes, (tree.writeDeep (checkpointPath directory epoch) bytes).2 = none
  empty : ∀ epoch, (tree.makeParents (checkpointPath directory epoch)).1.list directory = .ok []

/-- Writing a checkpoint leads from the first tree to the second one, with the checkpoint in the
directory. -/
structure TakesCheckpoints (tree made : FileTree) (directory : Path) (base : Location)
    (shelf : Shelf) : Prop where
  isEmptyDirectory : made.IsEmptyDirectory directory base
  writeDeep_eq : ∀ epoch bytes, tree.writeDeep (checkpointPath directory epoch) bytes
    = (made.stocked base (shelf.store epoch bytes), none)

theorem IsEmptyDirectory.takes (h : tree.IsEmptyDirectory directory base) (shelf : Shelf) :
    (tree.stocked base shelf).TakesCheckpoints tree directory base shelf :=
  ⟨h, h.writeDeep_stocked shelf⟩

/-- What has to be made for a checkpoint does not depend on its epoch. -/
theorem makeParents_checkpointPath (hdirectory : directory ≠ "") (epoch : UInt32) :
    tree.makeParents (checkpointPath directory epoch)
      = tree.makeParents (checkpointPath directory 0) :=
  makeParents_join_congr hdirectory (isStep_checkpointName epoch) (checkpointName_ne (by decide))
    (isStep_checkpointName 0) (checkpointName_ne (by decide))

theorem takes_of_makeParents {made : FileTree}
    (hmade : tree.makeParents (checkpointPath directory 0) = (made, none))
    (h : made.IsEmptyDirectory directory base) : tree.TakesCheckpoints made directory base [] where
  isEmptyDirectory := h
  writeDeep_eq epoch bytes := by
    have hwrite := h.write_stocked [] epoch bytes
    rw [stocked_nil] at hwrite
    rw [writeDeep, makeParents_checkpointPath (ne_empty_of_find h.found), hmade]
    exact hwrite

/-- **A vacant directory takes checkpoints.** -/
theorem Vacant.exists_takes (h : tree.Vacant directory) :
    ∃ made base, tree.TakesCheckpoints made directory base [] := by
  obtain ⟨base, hbase⟩ := isEmptyDirectory_of_list (h.empty 0)
  refine ⟨_, base, takes_of_makeParents ?_ hbase⟩
  have hnone := h.writable 0 []
  rw [writeDeep] at hnone
  split at hnone
  · cases hnone
  · rename_i made hparents
    rw [hparents]

/-- A directory is vacant if it is empty once what a checkpoint needs is made. -/
theorem vacant_of_makeParents {made : FileTree}
    (hmade : tree.makeParents (checkpointPath directory 0) = (made, none))
    (hempty : made.list directory = .ok []) : tree.Vacant directory := by
  obtain ⟨base, hbase⟩ := isEmptyDirectory_of_list hempty
  refine ⟨fun epoch bytes => ?_, fun epoch => ?_⟩
  · rw [(takes_of_makeParents hmade hbase).writeDeep_eq]
  · rw [makeParents_checkpointPath (ne_empty_of_find hbase.found), hmade]
    exact hempty

end FileTree

end TapeLife
