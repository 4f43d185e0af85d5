import Mathlib.Data.Nat.Digits.Defs
import TapeLife.Proofs.Checkpoint.Name
import TapeLife.Proofs.Outcome

/-!
# Proofs/Checkpoint/Listing — a listing holds the checkpoints of a directory, and nothing else

    checkpoint_epoch_   +    0007    .bfsw
          stem         sign  digits  ending

A name tells an epoch exactly if it is made of these four (`checkpointEpoch?_eq_some_iff`), and
names inside a directory stay apart (`Path.join_inj`).  So a listing holds every checkpoint once, in
the order of epochs and of paths where epochs agree, and its last line is the latest checkpoint
(`FileTree.listing_complete`).
-/

namespace TapeLife

/-! ## Numbers as they are written -/

/-- The number that decimal digits stand for, each digit times the power of ten of its place. -/
def placeValue (ds : List Char) : Nat :=
  Nat.ofDigits 10 (ds.reverse.map fun c => c.toNat - '0'.toNat)

theorem ofDigitChars_eq_placeValue (ds : List Char) : Nat.ofDigitChars 10 ds 0 = placeValue ds := by
  induction ds with
  | nil => rfl
  | cons c ds ih =>
    rw [Nat.ofDigitChars_cons, Nat.ofDigitChars_eq_ofDigitChars_zero, ih, placeValue, placeValue,
      List.reverse_cons, List.map_append, Nat.ofDigits_append, List.length_map, List.length_reverse,
      List.map_singleton, Nat.ofDigits_singleton, Nat.mul_zero, Nat.zero_add, Nat.add_comm]

theorem isDecimalDigit_iff {c : Char} : isDecimalDigit c = true ↔ '0' ≤ c ∧ c ≤ '9' := by
  simp [isDecimalDigit]

/-- **Digits are read as the number they stand for**, and nothing else is read. -/
theorem readDigits?_eq_some_iff {cs : List Char} {n : Nat} : readDigits? cs = some n ↔
    cs ≠ [] ∧ (∀ c ∈ cs, '0' ≤ c ∧ c ≤ '9') ∧ placeValue cs = n := by
  rw [readDigits?, ofDigitChars_eq_placeValue]
  simp only [List.all_eq_true, isDecimalDigit_iff]
  split <;> simp_all

/-- A sign is a plus sign or nothing. -/
theorem readNatural?_eq_some_iff {cs : List Char} {n : Nat} : readNatural? cs = some n ↔
    ∃ sign ds, (sign = [] ∨ sign = ['+']) ∧ cs = sign ++ ds ∧ readDigits? ds = some n := by
  constructor
  · intro h
    rw [readNatural?.eq_def] at h
    split at h
    · exact ⟨['+'], _, .inr rfl, rfl, h⟩
    · exact ⟨[], cs, .inl rfl, rfl, h⟩
  · rintro ⟨sign, ds, rfl | rfl, rfl, h⟩
    · rw [readNatural?.eq_def]
      split
      · -- a plus sign is no digit
        have hplus := (readDigits?_eq_some_iff.mp h).2.1 '+' List.mem_cons_self
        exact absurd hplus (by decide)
      · exact h
    · exact h

/-! ## Names as they are written -/

theorem dropStart?_eq_some_iff {start cs rest : List Char} :
    dropStart? start cs = some rest ↔ cs = start ++ rest := by
  constructor
  · intro h
    rw [dropStart?] at h
    split at h
    · rename_i hstart
      obtain rfl := Option.some.inj h
      exact List.prefix_iff_eq_append.mp (List.isPrefixOf_iff_prefix.mp hstart) |>.symm
    · cases h
  · rintro rfl
    exact dropStart?_append start rest

theorem dropEnd?_eq_some_iff {stop cs front : List Char} :
    dropEnd? stop cs = some front ↔ cs = front ++ stop := by
  constructor
  · intro h
    rw [dropEnd?] at h
    split at h
    · rename_i hstop
      obtain rfl := Option.some.inj h
      exact List.suffix_iff_eq_append.mp (List.isSuffixOf_iff_suffix.mp hstop) |>.symm
    · cases h
  · rintro rfl
    exact dropEnd?_append stop front

/-- The names of the checkpoints of an epoch: between a fixed beginning and a fixed end stands the
epoch in decimal, perhaps with leading zeros, perhaps with a plus sign. -/
def IsCheckpointOf (name : String) (epoch : UInt32) : Prop :=
  ∃ (sign : String) (ds : List Char), (sign = "" ∨ sign = "+") ∧ ds ≠ [] ∧
    (∀ c ∈ ds, '0' ≤ c ∧ c ≤ '9') ∧ placeValue ds = epoch.toNat ∧
    name = "checkpoint_epoch_" ++ sign ++ String.ofList ds ++ ".bfsw"

/-- **A name tells an epoch exactly if it is written as a checkpoint of it.** -/
theorem checkpointEpoch?_eq_some_iff {name : String} {epoch : UInt32} :
    checkpointEpoch? name = some epoch ↔ IsCheckpointOf name epoch := by
  simp only [checkpointEpoch?, Option.bind_eq_bind, Option.bind_eq_some_iff, dropStart?_eq_some_iff,
    dropEnd?_eq_some_iff, readNatural?_eq_some_iff, readDigits?_eq_some_iff]
  constructor
  · rintro ⟨_, hname, _, rfl, n, ⟨sign, ds, hsign, rfl, hne, hdigits, hvalue⟩, hepoch⟩
    split at hepoch
    · rename_i hlt
      obtain rfl := Option.some.inj hepoch
      refine ⟨String.ofList sign, ds, ?_, hne, hdigits, ?_, String.toList_inj.mp ?_⟩
      · obtain rfl | rfl := hsign
        · exact .inl rfl
        · exact .inr rfl
      · rw [hvalue, UInt32.toNat_ofNat_of_lt' hlt]
      · rw [hname]
        simp [checkpointStem, checkpointEnding]
    · cases hepoch
  · rintro ⟨sign, ds, hsign, hne, hdigits, hvalue, rfl⟩
    refine ⟨_, ?_, _, rfl, epoch.toNat, ⟨sign.toList, ds, ?_, rfl, hne, hdigits, hvalue⟩, ?_⟩
    · simp [checkpointStem, checkpointEnding]
    · obtain rfl | rfl := hsign
      · exact .inl rfl
      · exact .inr rfl
    · rw [if_pos epoch.toNat_lt, UInt32.ofNat_toNat]

theorem isCheckpointOf_checkpointName (epoch : UInt32) :
    IsCheckpointOf (checkpointName epoch) epoch :=
  checkpointEpoch?_eq_some_iff.mp (checkpointEpoch?_checkpointName epoch)

/-- **A name tells one epoch at most.** -/
theorem IsCheckpointOf.unique {name : String} {e e' : UInt32} (h : IsCheckpointOf name e)
    (h' : IsCheckpointOf name e') : e = e' := by
  rw [← checkpointEpoch?_eq_some_iff] at h h'
  exact Option.some.inj (h.symm.trans h')

/-- A checkpoint's name does not start at the root. -/
theorem IsCheckpointOf.isAbsolute {name : String} {epoch : UInt32} (h : IsCheckpointOf name epoch) :
    Path.isAbsolute name = false := by
  obtain ⟨sign, ds, -, -, -, -, rfl⟩ := h
  simp [Path.isAbsolute]

/-- **Names inside a directory stay apart.** -/
theorem Path.join_inj {directory : Path} {name name' : String} (h : Path.isAbsolute name = false)
    (h' : Path.isAbsolute name' = false) :
    join directory name = join directory name' ↔ name = name' := by
  refine ⟨fun hjoin => ?_, congrArg (join directory)⟩
  simp only [join, h, h', Bool.false_or] at hjoin
  rw [← String.toList_inj]
  split_ifs at hjoin
  · rw [hjoin]
  · simpa using congrArg String.toList hjoin
  · simpa using congrArg String.toList hjoin

theorem checkpointPath_inj {directory : Path} {e e' : UInt32} :
    checkpointPath directory e = checkpointPath directory e' ↔ e = e' := by
  rw [checkpointPath, checkpointPath, Path.join_inj (isStep_checkpointName e).isAbsolute
    (isStep_checkpointName e').isAbsolute, checkpointName_inj]

namespace FileTree

variable {tree : FileTree} {directory : Path} {found : List (UInt32 × Path)} {names : List String}

/-! ## Listings -/

/-- The lines of a listing, not sorted yet: the names that tell an epoch. -/
def lines (directory : Path) (names : List String) : List (UInt32 × Path) :=
  names.filterMap fun name => (checkpointEpoch? name).map fun epoch =>
    (epoch, Path.join directory name)

theorem checkpoints_eq_ok_iff : tree.checkpoints directory = .ok found ↔
    ∃ names, tree.list directory = .ok names ∧
      (lines directory names).mergeSort listedBefore = found := by
  rw [checkpoints, Except.bind_eq_ok_iff]
  simp only [Except.pure_eq_ok_iff]
  rfl

/-- A directory can be listed. -/
theorem exists_checkpoints_eq_ok (h : tree.isDirectory directory) :
    ∃ found, tree.checkpoints directory = .ok found := by
  rw [isDirectory] at h
  split at h
  · rename_i hfind
    exact ⟨_, checkpoints_eq_ok_iff.mpr ⟨_, by rw [list, hfind]; rfl, rfl⟩⟩
  · cases h

/-- **A line tells an epoch and the path of a name that is written as a checkpoint of it.** -/
theorem mem_lines_iff {epoch : UInt32} {path : Path} : (epoch, path) ∈ lines directory names ↔
    ∃ name ∈ names, IsCheckpointOf name epoch ∧ path = Path.join directory name := by
  simp only [lines, List.mem_filterMap, Option.map_eq_some_iff, Prod.mk.injEq,
    checkpointEpoch?_eq_some_iff]
  constructor
  · rintro ⟨name, hname, _, hcheckpoint, rfl, rfl⟩
    exact ⟨name, hname, hcheckpoint, rfl⟩
  · rintro ⟨name, hname, hcheckpoint, rfl⟩
    exact ⟨name, hname, epoch, hcheckpoint, rfl, rfl⟩

/-- The list holds the checkpoints among the names of a directory: every one on one line, sorted by
epoch, and by path where epochs agree. -/
structure IsListing (directory : Path) (names : List String) (found : List (UInt32 × Path)) :
    Prop where
  mem_iff : ∀ epoch path, (epoch, path) ∈ found ↔
    ∃ name ∈ names, IsCheckpointOf name epoch ∧ path = Path.join directory name
  nodup : (found.map (·.2)).Nodup
  sorted : found.Pairwise fun a b => a.1 < b.1 ∨ a.1 = b.1 ∧ a.2 < b.2

/-- No path is on two lines, if no name is in the directory twice. -/
theorem nodup_lines (hnames : names.Nodup) : ((lines directory names).map (·.2)).Nodup := by
  rw [lines, List.map_filterMap]
  refine List.Pairwise.filterMap _ (fun name name' hne path hpath path' hpath' heq => hne ?_) hnames
  simp only [Option.map_map, Option.map_eq_some_iff, Function.comp_apply,
    checkpointEpoch?_eq_some_iff] at hpath hpath'
  obtain ⟨epoch, hname, rfl⟩ := hpath
  obtain ⟨epoch', hname', rfl⟩ := hpath'
  exact (Path.join_inj hname.isAbsolute hname'.isAbsolute).mp heq

theorem isListing_mergeSort (hnames : names.Nodup) :
    IsListing directory names ((lines directory names).mergeSort listedBefore) := by
  have hsorted := pairwise_mergeSort_listedBefore (lines directory names)
  have hnodup : (((lines directory names).mergeSort listedBefore).map (·.2)).Nodup :=
    ((List.mergeSort_perm _ listedBefore).map (·.2)).nodup_iff.mpr (nodup_lines hnames)
  refine ⟨fun epoch path => ?_, hnodup, ?_⟩
  · rw [List.mem_mergeSort, mem_lines_iff]
  · refine (hsorted.and (List.pairwise_map.mp hnodup)).imp fun {a b} hab => ?_
    obtain ⟨hbefore, hne⟩ := hab
    obtain hepoch | ⟨hepoch, hpath⟩ := listedBefore_iff.mp hbefore
    · exact .inl hepoch
    · exact .inr ⟨hepoch, String.not_le.mp fun hback => hne (String.le_antisymm hpath hback)⟩

namespace IsListing

variable (h : IsListing directory names found)
include h

/-- The path of an epoch is listed under this epoch only. -/
theorem mem_checkpointPath_iff {epoch other : UInt32} (hepoch : checkpointName epoch ∈ names) :
    (other, checkpointPath directory epoch) ∈ found ↔ other = epoch := by
  rw [h.mem_iff]
  constructor
  · rintro ⟨name, -, hname, hpath⟩
    obtain rfl : checkpointName epoch = name :=
      (Path.join_inj (isStep_checkpointName epoch).isAbsolute hname.isAbsolute).mp hpath
    exact hname.unique (isCheckpointOf_checkpointName epoch)
  · rintro rfl
    exact ⟨_, hepoch, isCheckpointOf_checkpointName other, rfl⟩

/-- No line has a later epoch than the last one. -/
theorem le_getLast {last other : UInt32 × Path} (hlast : last ∈ found.getLast?)
    (hother : other ∈ found) : other.1 ≤ last.1 := by
  obtain ⟨front, rfl⟩ := List.getLast?_eq_some_iff.mp hlast
  obtain hfront | hend := List.mem_append.mp hother
  · obtain hlt | ⟨heq, -⟩ :=
      (List.pairwise_append.mp h.sorted).2.2 other hfront last (List.mem_singleton_self _)
    · exact UInt32.le_of_lt hlt
    · exact heq ▸ UInt32.le_refl _
  · rw [List.mem_singleton.mp hend]
    exact UInt32.le_refl _

end IsListing

/-- **There is no latest checkpoint** exactly if the directory cannot be listed, or has none. -/
theorem latestCheckpoint?_eq_none_iff : tree.latestCheckpoint? directory = none ↔
    (∃ cause, tree.list directory = .error cause) ∨
      ∃ names, tree.list directory = .ok names ∧
        ∀ name ∈ names, ∀ epoch, ¬ IsCheckpointOf name epoch := by
  cases hlist : tree.list directory with
  | error cause =>
    have herror : tree.checkpoints directory = .error cause := by
      rw [checkpoints, hlist]
      rfl
    simp [latestCheckpoint?, herror]
  | ok names =>
    have hfound := checkpoints_eq_ok_iff.mpr ⟨names, hlist, rfl⟩
    have hnone : tree.latestCheckpoint? directory = none ↔ lines directory names = [] := by
      rw [latestCheckpoint?, hfound]
      simp only [Option.map_eq_none_iff, List.getLast?_eq_none_iff]
      rw [← List.length_eq_zero_iff, List.length_mergeSort, List.length_eq_zero_iff]
    rw [hnone, lines]
    simp [Option.eq_none_iff_forall_ne_some, checkpointEpoch?_eq_some_iff]

/-- **A listing is complete, and in order.**  Of a directory that can be read, with any names in it,
it holds the ones that are written as checkpoints, under the epochs that they tell, so the path of
an epoch is listed under this epoch and paths of different epochs are different.  The latest
checkpoint is on the last line, and there is none exactly if no name is a checkpoint's or the
directory cannot be read. -/
theorem listing_complete (tree : FileTree) (directory : Path) :
    (∀ names, tree.list directory = .ok names → names.Nodup →
      ∃ found, tree.checkpoints directory = .ok found ∧ IsListing directory names found ∧
        (∀ epoch other, checkpointName epoch ∈ names →
          ((other, checkpointPath directory epoch) ∈ found ↔ other = epoch)) ∧
        tree.latestCheckpoint? directory = found.getLast?.map (·.2) ∧
        ∀ last ∈ found.getLast?, ∀ other ∈ found, other.1 ≤ last.1) ∧
    (∀ e e', checkpointPath directory e = checkpointPath directory e' ↔ e = e') ∧
    (tree.latestCheckpoint? directory = none ↔
      (∃ cause, tree.list directory = .error cause) ∨
        ∃ names, tree.list directory = .ok names ∧
          ∀ name ∈ names, ∀ epoch, ¬ IsCheckpointOf name epoch) := by
  refine ⟨fun names hlist hnames => ?_, fun e e' => checkpointPath_inj,
    latestCheckpoint?_eq_none_iff⟩
  have hfound := checkpoints_eq_ok_iff.mpr ⟨names, hlist, rfl⟩
  have hlisting := @isListing_mergeSort directory _ hnames
  refine ⟨_, hfound, hlisting, fun epoch other => hlisting.mem_checkpointPath_iff, ?_,
    fun last hlast other => hlisting.le_getLast hlast⟩
  rw [latestCheckpoint?, hfound]

/-- Names in a directory: one is a checkpoint's of epoch 10, two are of epoch 7, the number of the
next is too large for an epoch, and the last two have none. -/
def shelfNames : List String :=
  ["checkpoint_epoch_10.bfsw", "checkpoint_epoch_07.bfsw", "checkpoint_epoch_+7.bfsw",
    "checkpoint_epoch_4294967296.bfsw", "checkpoint_epoch_.bfsw", "notes.txt"]

/-- A directory of empty files with these names. -/
def shelfTree : FileTree :=
  ⟨(["saves"], .directory) :: shelfNames.map fun name => (["saves", name], .file [])⟩

/-- Three of the names are checkpoints; of the two for one epoch the plus sign comes first. -/
theorem listing_complete_shelfTree :
    let found := [(7, "saves/checkpoint_epoch_+7.bfsw"), (7, "saves/checkpoint_epoch_07.bfsw"),
      (10, "saves/checkpoint_epoch_10.bfsw")]
    shelfTree.list "saves" = .ok shelfNames ∧ shelfNames.Nodup ∧
      shelfTree.checkpoints "saves" = .ok found ∧ IsListing "saves" shelfNames found ∧
      shelfTree.latestCheckpoint? "saves" = some "saves/checkpoint_epoch_10.bfsw" := by
  intro found
  have hlist : shelfTree.list "saves" = .ok shelfNames := by decide +kernel
  have hnames : shelfNames.Nodup := by decide
  have hlines : lines "saves" shelfNames = found.reverse := by decide +kernel
  have hten : listedBefore (10, "saves/checkpoint_epoch_10.bfsw")
      (7, "saves/checkpoint_epoch_07.bfsw") = false := by decide +kernel
  have hseven : listedBefore (7, "saves/checkpoint_epoch_07.bfsw")
      (7, "saves/checkpoint_epoch_+7.bfsw") = false := by decide +kernel
  have hsorted : shelfTree.checkpoints "saves" = .ok found := by
    refine checkpoints_eq_ok_iff.mpr ⟨shelfNames, hlist, ?_⟩
    rw [hlines]
    simp [found, List.mergeSort, List.MergeSort.Internal.splitInTwo, List.splitAt, List.splitAt.go,
      hten, hseven]
  obtain ⟨listed, hlisted, hlisting, -, hlatest, -⟩ :=
    (listing_complete shelfTree "saves").1 shelfNames hlist hnames
  obtain rfl := Except.ok.inj (hsorted.symm.trans hlisted)
  exact ⟨hlist, hnames, hsorted, hlisting, hlatest⟩

end FileTree

end TapeLife
