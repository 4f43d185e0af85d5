import TapeLife.Files.Tree
import TapeLife.Proofs.Files.Path
import TapeLife.Proofs.Outcome

/-!
# Proofs/Files/Tree — ways through directories, and files at their ends

Finding a path takes a text that can name something, steps through directories, and an entry at the
end (`locate_eq_ok`, `find_eq_directory`).  Directories that stay directories leave every way open
(`follow_of_keeps`), and a name in a directory is one step behind it (`locate_join`).  The directory
above that name can be spelled in another way, without steps that stay, and is found in that way as
well (`find_ofParts`), so making it changes nothing when it is there (`makeParents_join`).
-/

namespace TapeLife

/-! ## Tables with one entry replaced -/

/-- **What is put under a key is found there**, and nothing else has changed. -/
theorem lookup_replace {α β : Type} [BEq α] [LawfulBEq α] (entries : List (α × β)) (key : α)
    (value : β) (other : α) :
    (entries.filter (·.1 != key) ++ [(key, value)]).lookup other
      = if other == key then some value else entries.lookup other := by
  induction entries with
  | nil => cases h : other == key <;> simp [List.lookup_cons, h]
  | cons entry entries ih =>
    obtain ⟨k, v⟩ := entry
    by_cases hkey : k = key
    · have hdropped : ((k, v) :: entries).filter (·.1 != key) = entries.filter (·.1 != key) :=
        List.filter_cons_of_neg (by simp [hkey])
      rw [hdropped, ih, List.lookup_cons, hkey]
      cases other == key <;> rfl
    · have hkept : ((k, v) :: entries).filter (·.1 != key)
          = (k, v) :: entries.filter (·.1 != key) := List.filter_cons_of_pos (by simp [hkey])
      rw [hkept, List.cons_append, List.lookup_cons, List.lookup_cons, ih]
      cases hother : other == k
      · rfl
      · have hne : (other == key) = false := by
          rw [eq_of_beq hother]
          exact beq_false_of_ne hkey
        simp [hne]

namespace FileTree

variable {tree tree' : FileTree} {path directory : Path} {name : String} {place base : Location}

/-- Every directory of the first tree is a directory of the second. -/
def Keeps (tree tree' : FileTree) : Prop :=
  ∀ place, tree.entry? place = some .directory → tree'.entry? place = some .directory

/-! ## Entries -/

theorem entry?_eq_lookup (hne : place ≠ []) (hroot : place ≠ ["/"]) :
    tree.entry? place = tree.entries.lookup place := if_neg (not_or.mpr ⟨hne, hroot⟩)

theorem ne_nil_of_entry?_ne (h : tree.entry? place ≠ some .directory) : place ≠ [] :=
  fun heq => h (if_pos (.inl heq))

theorem ne_root_of_entry?_ne (h : tree.entry? place ≠ some .directory) : place ≠ ["/"] :=
  fun heq => h (if_pos (.inr heq))

/-- An entry that takes the place of no directory. -/
theorem entry?_put (h : tree.entry? place ≠ some .directory) (entry : Entry) (other : Location) :
    entry? (tree.put place entry) other
      = if other = place then some entry else tree.entry? other := by
  have hne := ne_nil_of_entry?_ne h
  have hroot := ne_root_of_entry?_ne h
  by_cases hother : other = place
  · rw [if_pos hother, hother, entry?_eq_lookup hne hroot, put, lookup_replace]
    simp
  · rw [if_neg hother, entry?, entry?, put, lookup_replace]
    simp [hother]

/-! ## Steps -/

/-- Steps lead on from directories only. -/
theorem entry?_of_enter_eq_ok {next : Location} (h : tree.enter place name = .ok next) :
    tree.entry? place = some .directory := by
  rw [enter] at h
  split at h
  · cases h
  · cases h
  · assumption

theorem enter_stay (h : tree.entry? place = some .directory) :
    tree.enter place "." = .ok place := by
  rw [enter, h]
  exact if_pos rfl

theorem enter_name (h : tree.entry? place = some .directory) (hstay : name ≠ ".")
    (hup : name ≠ "..") (hsize : name.utf8ByteSize ≤ maxNameSize) :
    tree.enter place name = .ok (place ++ [name]) := by
  rw [enter, h]
  simp only [if_neg hstay, if_neg hup, if_neg (Nat.not_lt.mpr hsize)]

theorem enter_of_keeps (hkeeps : Keeps tree tree') {next : Location}
    (h : tree.enter place name = .ok next) : tree'.enter place name = .ok next := by
  have hdirectory := entry?_of_enter_eq_ok h
  rw [enter, hkeeps place hdirectory]
  rwa [enter, hdirectory] at h

/-! ## Ways -/

theorem follow_cons_eq_ok {names : List String} {last : Location} :
    tree.follow place (name :: names) = .ok last ↔
      ∃ next, tree.enter place name = .ok next ∧ tree.follow next names = .ok last := by
  rw [follow, Except.bind_eq_ok_iff]

theorem follow_append_eq_ok {front behind : List String} {last : Location} :
    tree.follow place (front ++ behind) = .ok last ↔
      ∃ next, tree.follow place front = .ok next ∧ tree.follow next behind = .ok last := by
  induction front generalizing place with
  | nil => simp [follow]
  | cons name names ih =>
    simp only [List.cons_append, follow_cons_eq_ok, ih]
    constructor
    · rintro ⟨next, henter, mid, hfront, hbehind⟩
      exact ⟨mid, ⟨next, henter, hfront⟩, hbehind⟩
    · rintro ⟨mid, ⟨next, henter, hfront⟩, hbehind⟩
      exact ⟨next, henter, mid, hfront, hbehind⟩

/-- **A way through directories stays open** as long as they stay directories. -/
theorem follow_of_keeps (hkeeps : Keeps tree tree') {names : List String} {last : Location}
    (h : tree.follow place names = .ok last) : tree'.follow place names = .ok last := by
  induction names generalizing place with
  | nil => exact h
  | cons name names ih =>
    obtain ⟨next, henter, hrest⟩ := follow_cons_eq_ok.mp h
    exact follow_cons_eq_ok.mpr ⟨next, enter_of_keeps hkeeps henter, ih hrest⟩

/-- Steps that stay may be left out. -/
theorem follow_filter {names : List String} {last : Location}
    (h : tree.follow place names = .ok last) :
    tree.follow place (names.filter (· != ".")) = .ok last := by
  induction names generalizing place with
  | nil => exact h
  | cons name names ih =>
    obtain ⟨next, henter, hrest⟩ := follow_cons_eq_ok.mp h
    by_cases hstay : name = "."
    · subst hstay
      rw [enter_stay (entry?_of_enter_eq_ok henter), Except.ok.injEq] at henter
      subst henter
      simpa using ih hrest
    · rw [List.filter_cons_of_pos (by simpa using hstay)]
      exact follow_cons_eq_ok.mpr ⟨next, henter, ih hrest⟩

/-! ## Paths -/

/-- **A path is located** if its text can name something and its steps lead somewhere. -/
theorem locate_eq_ok : tree.locate path = .ok place ↔
    path ≠ "" ∧ '\x00' ∉ path.toList ∧ tree.follow (origin path) path.steps = .ok place := by
  rw [locate]
  split
  · simp [*]
  · split
    · rename_i hnul
      simp [List.contains_iff_mem.mp hnul]
    · rename_i hempty hnul
      have hnul' : '\x00' ∉ path.toList := fun h => hnul (List.contains_iff_mem.mpr h)
      simp [hempty, hnul']

theorem find_eq_directory : tree.find path = .ok (place, .directory) ↔
    tree.locate path = .ok place ∧ tree.entry? place = some .directory := by
  rw [find, Except.bind_eq_ok_iff]
  constructor
  · rintro ⟨found, hlocate, h⟩
    split at h
    · cases h
    · split at h <;> cases h
    · obtain rfl : found = place := by simpa using h
      exact ⟨hlocate, by assumption⟩
  · rintro ⟨hlocate, hentry⟩
    exact ⟨place, hlocate, by rw [hentry]⟩

theorem find_of_keeps (hkeeps : Keeps tree tree') (h : tree.find path = .ok (place, .directory)) :
    tree'.find path = .ok (place, .directory) := by
  obtain ⟨hlocate, hentry⟩ := find_eq_directory.mp h
  obtain ⟨hempty, hnul, hfollow⟩ := locate_eq_ok.mp hlocate
  exact find_eq_directory.mpr
    ⟨locate_eq_ok.mpr ⟨hempty, hnul, follow_of_keeps hkeeps hfollow⟩, hkeeps place hentry⟩

/-- A file is read at the place that its path leads to. -/
theorem read_eq_ok {contents : List UInt8} (hlocate : tree.locate path = .ok place)
    (hentry : tree.entry? place = some (.file contents)) (hslash : path.endsInSlash = false) :
    tree.read path = .ok contents := by
  have hfind : tree.find path = .ok (place, .file contents) := by
    simp [find, hlocate, hentry, hslash, bind, Except.bind]
  rw [read, hfind]
  rfl

theorem ne_empty_of_find {found : Location × Entry} (h : tree.find path = .ok found) :
    path ≠ "" := by
  obtain ⟨place, hlocate, -⟩ := Except.bind_eq_ok_iff.mp h
  exact (locate_eq_ok.mp hlocate).1

section Directory

variable (hfind : tree.find directory = .ok (base, .directory)) (hname : Path.IsStep name)
  (hstay : name ≠ ".")
include hfind hname hstay

/-- **A name in a directory is one step behind it.** -/
theorem locate_join (hup : name ≠ "..") (hnul : '\x00' ∉ name.toList)
    (hsize : name.utf8ByteSize ≤ maxNameSize) :
    tree.locate (Path.join directory name) = .ok (base ++ [name]) := by
  obtain ⟨hlocate, hentry⟩ := find_eq_directory.mp hfind
  obtain ⟨hempty, hnul', hfollow⟩ := locate_eq_ok.mp hlocate
  refine locate_eq_ok.mpr ⟨Path.join_ne_empty hempty hname, ?_, ?_⟩
  · rw [Path.mem_toList_join hempty hname (by decide)]
    exact not_or.mpr ⟨hnul', hnul⟩
  · rw [origin, Path.isAbsolute_join hempty hname, Path.steps_join hempty hname]
    refine follow_append_eq_ok.mpr ⟨base, hfollow, ?_⟩
    exact follow_cons_eq_ok.mpr ⟨_, enter_name hentry hstay hup hsize, rfl⟩

end Directory

/-! ## The directory above a name -/

/-- Leaving out steps that stay, the first one perhaps excepted, leads to the same place. -/
theorem follow_parts (h : tree.follow place path.steps = .ok base) :
    tree.follow place path.parts = .ok base := by
  rw [Path.parts_eq]
  split
  · rename_i hstays
    obtain ⟨rest, hrest⟩ := List.head?_eq_some_iff.mp hstays.2
    rw [hrest] at h ⊢
    obtain ⟨next, henter, hfollow⟩ := follow_cons_eq_ok.mp h
    exact follow_cons_eq_ok.mpr ⟨next, henter, follow_filter hfollow⟩
  · exact follow_filter h

/-- A directory is found by its parts. -/
theorem find_ofParts (hfind : tree.find directory = .ok (base, .directory))
    (hne : Path.ofParts directory.isAbsolute directory.parts ≠ "") :
    tree.find (Path.ofParts directory.isAbsolute directory.parts) = .ok (base, .directory) := by
  obtain ⟨hlocate, hentry⟩ := find_eq_directory.mp hfind
  obtain ⟨-, hnul, hfollow⟩ := locate_eq_ok.mp hlocate
  have hparts : ∀ part ∈ directory.parts, Path.IsStep part := fun part hpart =>
    (Path.isStep_of_mem_parts hpart).1
  refine find_eq_directory.mpr ⟨locate_eq_ok.mpr ⟨hne, fun h => ?_, ?_⟩, hentry⟩
  · obtain ⟨part, hpart, hc⟩ := Path.exists_mem_of_mem_ofParts h (by decide)
    exact hnul ((Path.isStep_of_mem_parts hpart).2 _ hc)
  · rw [origin, Path.isAbsolute_ofParts hparts, Path.steps_ofParts hparts]
    exact follow_parts hfollow

/-- **Making a directory that is there does nothing.** -/
theorem makeDirectories_of_find (h : tree.find path = .ok (place, .directory)) :
    tree.makeDirectories path = (tree, none) := by
  obtain ⟨hlocate, hentry⟩ := find_eq_directory.mp h
  have hmake : tree.makeDirectory path = .error .alreadyExists := by
    simp only [makeDirectory, hlocate, hentry, bind, Except.bind]
  have hthere : tree.isDirectory path = true := by rw [isDirectory, h]
  rw [makeDirectories, makeDirectoriesUpTo, if_neg (ne_empty_of_find h), hmake]
  simp only [hthere, if_pos]

/-- The directories that a file needs are there if its own directory is. -/
theorem makeParents_join (hfind : tree.find directory = .ok (base, .directory))
    (hname : Path.IsStep name) (hstay : name ≠ ".") :
    tree.makeParents (Path.join directory name) = (tree, none) := by
  rw [makeParents, Path.parent?_join (ne_empty_of_find hfind) hname hstay]
  by_cases hne : Path.ofParts directory.isAbsolute directory.parts = ""
  · rw [hne]
    rfl
  · exact makeDirectories_of_find (find_ofParts hfind hne)

/-- What is made above a name does not depend on the name. -/
theorem makeParents_join_congr (hdirectory : directory ≠ "") {other : String}
    (hname : Path.IsStep name) (hstay : name ≠ ".") (hother : Path.IsStep other)
    (hstay' : other ≠ ".") :
    tree.makeParents (Path.join directory name) = tree.makeParents (Path.join directory other) := by
  rw [makeParents, makeParents, Path.parent?_join hdirectory hname hstay,
    Path.parent?_join hdirectory hother hstay']

end FileTree

end TapeLife
