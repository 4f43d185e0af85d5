import TapeLife.Files.Path

/-!
# Proofs/Files/Path — a name inside a directory is one step more

    steps (directory / name)  = steps directory ++ [name]
    parent (directory / name) = the path of the parts of directory

Everything about steps follows from one equation: the steps of a text with a slash in it are those
before the slash and those behind it (`steps_append_slash`).
-/

namespace TapeLife

/-- What stands between separators is part of the text and no separator. -/
theorem mem_and_ne_of_mem_splitOn {α : Type} [BEq α] [LawfulBEq α] {a c : α} {xs piece : List α}
    (hpiece : piece ∈ xs.splitOn a) (hc : c ∈ piece) : c ∈ xs ∧ c ≠ a := by
  induction xs generalizing piece with
  | nil =>
    obtain rfl := List.mem_singleton.mp (List.splitOn_nil a ▸ hpiece)
    cases hc
  | cons x xs ih =>
    rw [List.splitOn_cons_eq_if_modifyHead] at hpiece
    split at hpiece
    · obtain rfl | hrest := List.mem_cons.mp hpiece
      · cases hc
      · exact ⟨List.mem_cons_of_mem _ (ih hrest hc).1, (ih hrest hc).2⟩
    · rename_i hx
      obtain ⟨first, rest, hsplit⟩ := List.exists_cons_of_ne_nil (List.splitOn_ne_nil a xs)
      rw [hsplit, List.modifyHead_cons] at hpiece
      obtain rfl | hrest := List.mem_cons.mp hpiece
      · obtain rfl | htail := List.mem_cons.mp hc
        · exact ⟨List.mem_cons_self, by simpa using hx⟩
        · have := ih (hsplit ▸ List.mem_cons_self) htail
          exact ⟨List.mem_cons_of_mem _ this.1, this.2⟩
      · have := ih (hsplit ▸ List.mem_cons_of_mem _ hrest) hc
        exact ⟨List.mem_cons_of_mem _ this.1, this.2⟩

namespace Path

variable {path directory : Path} {name : String}

/-- A text that can be a step: it has a letter, and none is a slash. -/
structure IsStep (name : String) : Prop where
  ne_empty : name ≠ ""
  slash_notMem : '/' ∉ name.toList

/-! ## Steps -/

/-- **The steps of a text with a slash** are those before it and those behind it. -/
theorem steps_append_slash (front behind : String) :
    steps (front ++ "/" ++ behind) = steps front ++ steps behind := by
  have htext : (front ++ "/" ++ behind).toList = front.toList ++ '/' :: behind.toList := by simp
  rw [steps, htext, List.splitOn_append_cons_self, List.map_append, List.filter_append]
  rfl

theorem steps_empty : steps "" = [] := rfl

theorem IsStep.steps (hname : IsStep name) : Path.steps name = [name] := by
  rw [Path.steps, List.splitOn_eq_singleton hname.slash_notMem]
  simp [hname.ne_empty]

/-- What the steps of a path are made of. -/
theorem isStep_of_mem_steps {step : String} (h : step ∈ path.steps) :
    IsStep step ∧ ∀ c ∈ step.toList, c ∈ path.toList := by
  obtain ⟨hmem, hne⟩ := List.mem_filter.mp h
  obtain ⟨piece, hpiece, rfl⟩ := List.mem_map.mp hmem
  have hletters : ∀ c ∈ piece, c ∈ path.toList ∧ c ≠ '/' := fun c hc =>
    mem_and_ne_of_mem_splitOn hpiece hc
  refine ⟨⟨by simpa using hne, fun hslash => ?_⟩, fun c hc => ?_⟩
  · exact (hletters _ (by simpa using hslash)).2 rfl
  · exact (hletters c (by simpa using hc)).1

/-! ## A name inside a directory -/

/-- A path that ends in a slash is one without it, and the slash. -/
theorem exists_eq_append_slash (h : directory.endsInSlash = true) :
    ∃ front : String, directory = front ++ "/" := by
  have hlast : directory.toList.getLast? = some '/' := by simpa [endsInSlash] using h
  obtain ⟨front, hfront⟩ := List.getLast?_eq_some_iff.mp hlast
  refine ⟨String.ofList front, String.toList_inj.mp ?_⟩
  simpa using hfront

theorem IsStep.isAbsolute (hname : IsStep name) : Path.isAbsolute name = false := by
  rw [Path.isAbsolute, beq_eq_false_iff_ne]
  exact fun h => hname.slash_notMem (List.mem_of_mem_head? h)

section Join

variable (hdirectory : directory ≠ "") (hname : IsStep name)
include hdirectory hname

/-- A name that is joined to a directory stands behind it, with one slash in between. -/
theorem exists_join_eq : ∃ front : String, join directory name = front ++ "/" ++ name ∧
    (directory = front ++ "/" ∨ directory = front) := by
  have hjoin : join directory name =
      if directory.endsInSlash then directory ++ name else directory ++ "/" ++ name := by
    simp [join, hname.isAbsolute, hdirectory]
  split at hjoin
  · rename_i hslash
    obtain ⟨front, rfl⟩ := exists_eq_append_slash hslash
    exact ⟨front, hjoin, .inl rfl⟩
  · exact ⟨directory, hjoin, .inr rfl⟩

/-- **A name inside a directory is one step more.** -/
theorem steps_join : (join directory name).steps = directory.steps ++ [name] := by
  obtain ⟨front, hjoin, hfront⟩ := exists_join_eq hdirectory hname
  have hsteps : directory.steps = Path.steps front := by
    obtain rfl | rfl := hfront
    · simpa [steps_empty] using steps_append_slash front ""
    · rfl
  rw [hjoin, steps_append_slash, hname.steps, hsteps]

theorem isAbsolute_join : (join directory name).isAbsolute = directory.isAbsolute := by
  obtain ⟨front, hjoin, hfront⟩ := exists_join_eq hdirectory hname
  obtain rfl | rfl := hfront
  · simp [hjoin, isAbsolute, List.head?_append]
  · rw [hjoin, isAbsolute, isAbsolute]
    obtain ⟨c, cs, htext⟩ := List.exists_cons_of_ne_nil (mt String.toList_eq_nil_iff.mp hdirectory)
    simp [htext]

theorem endsInSlash_join : (join directory name).endsInSlash = false := by
  obtain ⟨front, hjoin, -⟩ := exists_join_eq hdirectory hname
  have hlast : (join directory name).toList.getLast? = name.toList.getLast? := by
    have hne : name.toList ≠ [] := mt String.toList_eq_nil_iff.mp hname.ne_empty
    rw [hjoin, String.toList_append, List.getLast?_append, List.getLast?_eq_some_getLast hne]
    rfl
  rw [endsInSlash, hlast, beq_eq_false_iff_ne]
  exact fun h => hname.slash_notMem (List.mem_of_getLast? h)

theorem join_ne_empty : join directory name ≠ "" := by
  obtain ⟨front, hjoin, -⟩ := exists_join_eq hdirectory hname
  intro h
  have hlength := congrArg (fun path : String => path.toList.length) (hjoin.symm.trans h)
  simp at hlength

theorem mem_toList_join {c : Char} (hc : c ≠ '/') :
    c ∈ (join directory name).toList ↔ c ∈ directory.toList ∨ c ∈ name.toList := by
  obtain ⟨front, hjoin, rfl | rfl⟩ := exists_join_eq hdirectory hname <;> simp [hjoin, hc]

end Join

/-! ## Parts -/

/-- A relative path has a step. -/
theorem steps_ne_nil (hpath : path ≠ "") (hrelative : path.isAbsolute = false) :
    path.steps ≠ [] := by
  obtain ⟨c, cs, htext⟩ := List.exists_cons_of_ne_nil (mt String.toList_eq_nil_iff.mp hpath)
  have hc : (c == '/') = false := by simpa [isAbsolute, htext] using hrelative
  obtain ⟨first, rest, hsplit⟩ := List.exists_cons_of_ne_nil (List.splitOn_ne_nil '/' cs)
  rw [steps, htext, List.splitOn_cons_eq_if_modifyHead, hsplit]
  simp [hc]

theorem parts_eq (path : Path) : path.parts =
    if path.isAbsolute = false ∧ path.steps.head? = some "." then
      "." :: path.steps.tail.filter (· != ".")
    else path.steps.filter (· != ".") := by
  rw [parts]
  split
  · rename_i habsolute hsteps
    simp [habsolute, hsteps]
  · rename_i hother
    rw [if_neg]
    rintro ⟨habsolute, hhead⟩
    obtain ⟨rest, hrest⟩ := List.head?_eq_some_iff.mp hhead
    exact hother rest habsolute hrest

/-- **A name inside a directory is one part more**, unless it says to stay. -/
theorem parts_join (hdirectory : directory ≠ "") (hname : IsStep name) (hstay : name ≠ ".") :
    (join directory name).parts = directory.parts ++ [name] := by
  rw [parts_eq, parts_eq, isAbsolute_join hdirectory hname, steps_join hdirectory hname]
  rcases habsolute : directory.isAbsolute with _ | _
  · obtain ⟨step, rest, hsteps⟩ := List.exists_cons_of_ne_nil (steps_ne_nil hdirectory habsolute)
    rw [hsteps]
    by_cases hfirst : step = "." <;> simp [hfirst, hstay, List.filter_append]
  · simp [List.filter_append, hstay]

theorem parent?_join (hdirectory : directory ≠ "") (hname : IsStep name) (hstay : name ≠ ".") :
    (join directory name).parent? = some (ofParts directory.isAbsolute directory.parts) := by
  rw [parent?, parts_join hdirectory hname hstay, isAbsolute_join hdirectory hname,
    if_neg (by simp), List.dropLast_concat]

theorem isStep_of_mem_parts {part : String} (h : part ∈ path.parts) :
    IsStep part ∧ ∀ c ∈ part.toList, c ∈ path.toList := by
  refine isStep_of_mem_steps ?_
  rw [parts_eq] at h
  split at h
  · rename_i hstays
    obtain ⟨rest, hrest⟩ := List.head?_eq_some_iff.mp hstays.2
    rw [hrest] at h ⊢
    obtain rfl | hpart := List.mem_cons.mp h
    · exact List.mem_cons_self
    · exact List.mem_cons_of_mem _ (List.mem_filter.mp hpart).1
  · exact (List.mem_filter.mp h).1

/-! ## The path of parts -/

section OfParts

variable {absolute : Bool} {parts : List String} (hparts : ∀ part ∈ parts, IsStep part)
include hparts

theorem steps_intercalate : steps ("/".intercalate parts) = parts := by
  induction parts with
  | nil => rfl
  | cons part rest ih =>
    have hpart : steps part = [part] := (hparts part List.mem_cons_self).steps
    cases rest with
    | nil => exact hpart
    | cons next rest =>
      rw [String.intercalate_cons_cons, steps_append_slash, hpart,
        ih fun other hother => hparts other (List.mem_cons_of_mem _ hother)]
      rfl

/-- **The path of parts has these parts as its steps.** -/
theorem steps_ofParts : (ofParts absolute parts).steps = parts := by
  cases absolute with
  | true =>
    have hslash : ofParts true parts = "" ++ "/" ++ "/".intercalate parts := by simp [ofParts]
    rw [hslash, steps_append_slash, steps_intercalate hparts]
    rfl
  | false =>
    have htext : ofParts false parts = "/".intercalate parts := by simp [ofParts]
    rw [htext, steps_intercalate hparts]

theorem isAbsolute_ofParts : (ofParts absolute parts).isAbsolute = absolute := by
  cases absolute with
  | true => simp [ofParts, isAbsolute]
  | false =>
    have htext : ofParts false parts = "/".intercalate parts := by simp [ofParts]
    rw [htext]
    cases parts with
    | nil => rfl
    | cons part rest =>
      have hpart := hparts part List.mem_cons_self
      have hrelative := hpart.isAbsolute
      obtain ⟨c, cs, hcs⟩ :=
        List.exists_cons_of_ne_nil (mt String.toList_eq_nil_iff.mp hpart.ne_empty)
      cases rest with
      | nil => exact hrelative
      | cons next rest => simpa [isAbsolute, hcs] using hrelative

omit hparts in
/-- The letters of the path of parts are those of the parts, and slashes. -/
theorem exists_mem_of_mem_ofParts {c : Char} (hc : c ∈ (ofParts absolute parts).toList)
    (hslash : c ≠ '/') : ∃ part ∈ parts, c ∈ part.toList := by
  have hmem : c ∈ ("/".intercalate parts).toList := by
    cases absolute <;> simpa [ofParts, hslash] using hc
  clear hc
  induction parts with
  | nil => cases hmem
  | cons part rest ih =>
    cases rest with
    | nil => exact ⟨part, List.mem_cons_self, hmem⟩
    | cons next rest =>
      rw [String.intercalate_cons_cons, String.toList_append, String.toList_append,
        List.mem_append, List.mem_append] at hmem
      obtain (hfirst | hmid) | hrest := hmem
      · exact ⟨part, List.mem_cons_self, hfirst⟩
      · exact absurd (List.mem_singleton.mp hmid) hslash
      · obtain ⟨other, hother, hc⟩ := ih hrest
        exact ⟨other, List.mem_cons_of_mem _ hother, hc⟩

end OfParts

end Path

end TapeLife
