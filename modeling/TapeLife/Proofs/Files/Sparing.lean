import TapeLife.Proofs.Checkpoint.Queue
import TapeLife.Proofs.Files.Output

/-!
# Proofs/Files/Sparing — writing whole files spares the others

    make directories ──▸ create ──▸ write        directories stay, the file at another place too

A path names a place before its directories are there: the one that its steps lead to as soon as
they can be followed (`Path.target`, `FileTree.target_eq`).  Writing a whole file puts directories
where nothing was and a file at the place that its path names, so a file at any other place is what
it was, whether the write succeeds or not (`Spares.writeDeep`), and so it is after any number of
snapshots with such paths (`Spares.writeInPlace`).
-/

namespace TapeLife

/-! ## The place that a path names -/

/-- The place one step from another, through directories that need not be there. -/
def Path.stepTo (place : Location) (name : String) : Location :=
  if name = "." then place else if name = ".." then FileTree.above place else place ++ [name]

/-- The place that a path names, through directories that need not be there. -/
def Path.target (path : Path) : Location := path.steps.foldl stepTo (FileTree.origin path)

namespace FileTree

variable {tree tree' tree'' : FileTree} {place last : Location} {path : Path}

theorem stepTo_eq {name : String} (h : tree.enter place name = .ok last) :
    Path.stepTo place name = last := by
  rw [enter, entry?_of_enter_eq_ok h] at h
  rw [Path.stepTo]
  split_ifs at h ⊢ <;> exact Except.ok.inj h

/-- A way that can be followed leads where its steps say. -/
theorem foldl_stepTo_eq {names : List String} (h : tree.follow place names = .ok last) :
    names.foldl Path.stepTo place = last := by
  induction names generalizing place with
  | nil => exact Except.ok.inj h
  | cons name names ih =>
    obtain ⟨next, henter, hrest⟩ := follow_cons_eq_ok.mp h
    rw [List.foldl_cons, stepTo_eq henter]
    exact ih hrest

/-- **A path that is located is where it says.** -/
theorem target_eq (h : tree.locate path = .ok place) : path.target = place :=
  foldl_stepTo_eq (locate_eq_ok.mp h).2.2

/-- From one tree to the other every directory has stayed one, and what stands at a place has not
changed. -/
structure Spares (place : Location) (tree tree' : FileTree) : Prop where
  keeps : tree.Keeps tree'
  entry?_eq : tree'.entry? place = tree.entry? place

namespace Spares

theorem refl (place : Location) (tree : FileTree) : Spares place tree tree := ⟨fun _ h => h, rfl⟩

theorem trans (h : Spares place tree tree') (h' : Spares place tree' tree'') :
    Spares place tree tree'' :=
  ⟨fun other hother => h'.keeps other (h.keeps other hother), h'.entry?_eq.trans h.entry?_eq⟩

/-- What takes the place of no directory spares the other places. -/
theorem put {other : Location} (hother : tree.entry? other ≠ some .directory) (hne : other ≠ place)
    (entry : Entry) : Spares place tree (tree.put other entry) where
  keeps found hfound := by
    have hne' : found ≠ other := by
      rintro rfl
      exact hother hfound
    rw [entry?_put hother, if_neg hne', hfound]
  entry?_eq := by rw [entry?_put hother, if_neg hne.symm]

variable {contents : List UInt8} (hfile : tree.entry? place = some (.file contents))
include hfile

/-- A directory is made where nothing was. -/
theorem makeDirectory (h : tree.makeDirectory path = .ok tree') : Spares place tree tree' := by
  obtain ⟨other, -, hmade⟩ := Except.bind_eq_ok_iff.mp h
  split at hmade
  · cases hmade
  · rename_i hnone
    obtain rfl := Except.ok.inj hmade
    refine put (by simp [hnone]) (fun heq => ?_) _
    rw [heq, hfile] at hnone
    cases hnone

theorem makeDirectoriesUpTo (path : Path) (depth : Nat) :
    Spares place tree (tree.makeDirectoriesUpTo path depth).1 := by
  induction depth generalizing path with
  | zero => exact refl place tree
  | succ depth ih =>
    rw [FileTree.makeDirectoriesUpTo]
    split
    · exact refl place tree
    · split
      · exact makeDirectory hfile ‹_›
      · split
        · exact refl place tree
        · rename_i parent _
          have hparent := ih parent
          split
          · rename_i heq
            rwa [heq] at hparent
          · rename_i made heq
            rw [heq] at hparent
            split
            · exact hparent.trans (makeDirectory (hparent.entry?_eq.trans hfile) ‹_›)
            · exact hparent
      · exact refl place tree

theorem makeParents (path : Path) : Spares place tree (tree.makeParents path).1 := by
  rw [FileTree.makeParents]
  split
  · exact refl place tree
  · exact makeDirectoriesUpTo hfile _ _

variable (hpath : path.target ≠ place)
include hpath
omit hfile

theorem write (bytes : List UInt8) : Spares place tree (tree.write path bytes).1 := by
  rw [FileTree.write]
  split
  · exact refl place tree
  · rename_i other created hcreate
    obtain ⟨hlocate, -, hother, rfl⟩ := create_eq_ok hcreate
    have hne : other ≠ place := target_eq hlocate ▸ hpath
    have hcreated : entry? (tree.put other (.file [])) other = some (.file []) := by
      rw [entry?_put hother, if_pos rfl]
    dsimp only
    rw [writeAt, hcreated]
    exact (put hother hne _).trans (put (by simp [hcreated]) hne _)

include hfile

/-- **A whole file that is written at another place spares a file**, with all that is made above
it. -/
theorem writeDeep (bytes : List UInt8) : Spares place tree (tree.writeDeep path bytes).1 := by
  have hparents := makeParents hfile path
  rw [FileTree.writeDeep]
  split
  · rename_i heq
    rwa [heq] at hparents
  · rename_i heq
    rw [heq] at hparents
    exact hparents.trans (write hpath bytes)

end Spares

/-- **Snapshots for other places spare a file.** -/
theorem Spares.writeInPlace {contents : List UInt8}
    (hfile : tree.entry? place = some (.file contents)) {snapshots : List Snapshot}
    (hpaths : ∀ s ∈ snapshots, s.path.target ≠ place) :
    Spares place tree (writeInPlace tree snapshots).1 := by
  induction snapshots generalizing tree with
  | nil => exact refl place tree
  | cons s rest ih =>
    obtain ⟨hs, hrest⟩ := List.forall_mem_cons.mp hpaths
    have hfirst : Spares place tree (WriteQueue.write tree s).1 := writeDeep hfile hs s.bytes
    exact hfirst.trans (ih (hfirst.entry?_eq.trans hfile) hrest)

/-- Closing a queue of such snapshots does so as well. -/
theorem Spares.shutdown {contents : List UInt8}
    (hfile : tree.entry? place = some (.file contents)) {q : WriteQueue}
    (hpaths : ∀ s ∈ q.waiting, s.path.target ≠ place) :
    Spares place tree (q.shutdown tree).1 := by
  rw [WriteQueue.shutdown]
  split
  · exact refl place tree
  · rw [WriteQueue.drain_eq]
    exact writeInPlace hfile hpaths

end FileTree

end TapeLife
