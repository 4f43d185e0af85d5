import TapeLife.Proofs.Session.Groups
import TapeLife.Session.Options

/-!
# Proofs/Session/Options — where the two looks at a command line part

    second look    --resume ╌ --help        --width ╌ 5        a value is no option
    first look     --resume   --help ──▸ leaves                but it is acted on

The second look is what it does at its options, one after the other (`applyArguments_eq_foldlM`), and
the first look would be the same if nothing else was there than what it acts on
(`lookFirst_actedOn`).  As long as no value of an override is spelled like something that the first
look acts on, it takes the same arguments for options as the second look; and where one is, it acts
on a value (`acts_on_options_iff`).
-/

namespace TapeLife

open ArgumentGroup (reserved)

variable {tree : FileTree} {argument value : String} {arguments place rest : List String}

/-! ## Arguments -/

theorem mem_reserved_iff : argument ∈ reserved ↔
    isLoadFlag argument = true ∨ argument = "--generate-config" ∨ argument = "--help" := by
  simp only [reserved, List.mem_cons, List.not_mem_nil, or_false, isLoadFlag, Bool.or_eq_true,
    beq_iff_eq]
  tauto

/-- The first look does nothing at an override. -/
theorem notMem_reserved_of_isOverride (h : isOverride argument = true) : argument ∉ reserved := by
  have hall : ∀ argument ∈ reserved, isOverride argument = false := by decide
  exact fun hmem => Bool.false_ne_true ((hall argument hmem).symm.trans h)

theorem find?_overrides_eq_none (h : isOverride argument = false) :
    overrides.find? (·.flags.contains argument) = none :=
  List.find?_eq_none.mpr fun override hmem => List.any_eq_false.mp h override hmem

theorem exists_find?_overrides (h : isOverride argument = true) :
    ∃ override, overrides.find? (·.flags.contains argument) = some override :=
  Option.isSome_iff_exists.mp (List.find?_isSome.mpr (List.any_eq_true.mp h))

theorem isActedOn_cons : isActedOn (argument :: rest) = true ↔ argument ∈ reserved := by
  simp [isActedOn]

/-! ## The second look -/

section Second

theorem secondOptions_value (h : takesValue argument = true) (value : String) (rest : List String) :
    secondOptions (argument :: value :: rest) = (argument :: value :: rest) :: secondOptions rest ∧
      secondValues (argument :: value :: rest) = (value :: rest) :: secondValues rest := by
  rw [secondOptions.eq_def, secondValues.eq_def]
  simp [h]

theorem secondOptions_alone (h : takesValue argument = false) (rest : List String) :
    secondOptions (argument :: rest) = (argument :: rest) :: secondOptions rest ∧
      secondValues (argument :: rest) = secondValues rest := by
  rw [secondOptions.eq_def, secondValues.eq_def]
  simp [h]

theorem secondOptions_last (argument : String) :
    secondOptions [argument] = [[argument]] ∧ secondValues [argument] = [] := by
  rw [secondOptions.eq_def, secondValues.eq_def]
  cases h : takesValue argument <;> simp [h, secondOptions, secondValues]

/-- **The second look is what it does at its options**, one after the other. -/
theorem applyArguments_eq_foldlM (arguments : List String) (s : Settings) :
    applyArguments arguments s = (secondOptions arguments).foldlM applyOption s := by
  induction arguments using secondOptions.induct generalizing s with
  | case1 => rfl
  | case2 argument hvalue =>
    rw [applyArguments.eq_def, (secondOptions_last argument).1, List.foldlM_cons, applyOption]
    cases hload : isLoadFlag argument with
    | true => simp [hload, pure, Except.pure, bind, Except.bind]
    | false =>
      rw [takesValue, hload, Bool.false_or] at hvalue
      obtain ⟨override, hfind⟩ := exists_find?_overrides hvalue
      simp only [hload, hfind]
      rfl
  | case3 argument hvalue value rest ih =>
    rw [applyArguments.eq_def, (secondOptions_value hvalue value rest).1, List.foldlM_cons,
      applyOption]
    cases hload : isLoadFlag argument with
    | true =>
      simp only [hload, if_true]
      exact ih s
    | false =>
      rw [takesValue, hload, Bool.false_or] at hvalue
      obtain ⟨override, hfind⟩ := exists_find?_overrides hvalue
      simp only [hload, hfind]
      cases happly : override.apply value s with
      | none => rfl
      | some s => exact ih s
  | case4 argument rest hvalue ih =>
    rw [Bool.not_eq_true] at hvalue
    rw [applyArguments.eq_def, (secondOptions_alone hvalue rest).1, List.foldlM_cons, applyOption]
    rw [takesValue, Bool.or_eq_false_iff] at hvalue
    simp only [hvalue.1, find?_overrides_eq_none hvalue.2]
    cases hswitch : switches.lookup argument with
    | none => rfl
    | some switch => exact ih (switch s)

/-- A value is never the first argument. -/
theorem length_lt_of_mem_secondValues (h : place ∈ secondValues arguments) :
    place.length < arguments.length := by
  induction arguments using secondOptions.induct with
  | case1 => cases h
  | case2 argument hvalue =>
    rw [(secondOptions_last argument).2] at h
    cases h
  | case3 argument hvalue value rest ih =>
    rw [(secondOptions_value hvalue value rest).2] at h
    rw [List.length_cons, List.length_cons]
    rcases List.mem_cons.mp h with rfl | h
    · exact Nat.lt_succ_self _
    · exact Nat.lt_succ_of_lt (Nat.lt_succ_of_lt (ih h))
  | case4 argument rest hvalue ih =>
    rw [(secondOptions_alone (Bool.not_eq_true _ ▸ hvalue) rest).2] at h
    exact Nat.lt_succ_of_lt (ih h)

/-- What stands after an option with a value is a value. -/
theorem mem_secondValues (hvalue : takesValue argument = true)
    (h : argument :: value :: rest ∈ secondOptions arguments) :
    value :: rest ∈ secondValues arguments := by
  induction arguments using secondOptions.induct with
  | case1 => cases h
  | case2 first _ =>
    rw [(secondOptions_last first).1] at h
    simp at h
  | case3 first hfirst second more ih =>
    rw [(secondOptions_value hfirst second more).1] at h
    rw [(secondOptions_value hfirst second more).2]
    rcases List.mem_cons.mp h with heq | h
    · rw [(List.cons.inj heq).2]
      exact List.mem_cons_self
    · exact List.mem_cons_of_mem _ (ih h)
  | case4 first more hfirst ih =>
    rw [(secondOptions_alone (Bool.not_eq_true _ ▸ hfirst) more).1] at h
    rw [(secondOptions_alone (Bool.not_eq_true _ ▸ hfirst) more).2]
    rcases List.mem_cons.mp h with heq | h
    · rw [(List.cons.inj heq).1] at hvalue
      exact absurd hvalue hfirst
    · exact ih h

end Second

/-! ## The first look -/

section First

variable (tree : FileTree)

/-- The first look goes on after what it does not act on. -/
theorem firstOptions_of_notMem (h : argument ∉ reserved) (rest : List String) :
    firstOptions tree (argument :: rest) = (argument :: rest) :: firstOptions tree rest := by
  rw [mem_reserved_iff, not_or] at h
  rw [firstOptions.eq_def]
  simp [h.1, h.2]

theorem actedOn_of_notMem (h : argument ∉ reserved) (rest : List String) :
    actedOn tree (argument :: rest) = actedOn tree rest := by
  rw [actedOn, firstOptions_of_notMem tree h, List.filter_cons,
    if_neg fun hacted => h (isActedOn_cons.mp hacted)]
  rfl

/-- **All that the first look can do at an option**: it leaves, it goes on after the name of a file, or
it passes over what it does not act on. -/
theorem first_induction {motive : List String → Prop} (nil : motive [])
    (leave : ∀ argument rest, argument ∈ reserved →
      firstOptions tree (argument :: rest) = [argument :: rest] → motive (argument :: rest))
    (load : ∀ argument path rest, isLoadFlag argument = true →
      firstOptions tree (argument :: path :: rest)
        = (argument :: path :: rest) :: firstOptions tree rest →
      motive rest → motive (argument :: path :: rest))
    (pass : ∀ argument rest, argument ∉ reserved → motive rest → motive (argument :: rest))
    (arguments : List String) : motive arguments := by
  induction arguments using firstOptions.induct tree with
  | case1 => exact nil
  | case2 argument hload =>
    exact leave argument [] (mem_reserved_iff.mpr (.inl hload)) (by simp [firstOptions, hload])
  | case3 argument hload path rest cause hfile =>
    exact leave argument _ (mem_reserved_iff.mpr (.inl hload)) (by
      rw [firstOptions.eq_def]
      simp [hload, hfile])
  | case4 argument hload path rest loaded hfile ih =>
    exact load argument path rest hload (by
      rw [firstOptions.eq_def]
      simp [hload, hfile]) ih
  | case5 argument rest hload hleave =>
    exact leave argument rest (mem_reserved_iff.mpr (.inr hleave)) (by
      rw [firstOptions.eq_def]
      simp [hload, hleave])
  | case6 argument rest hload hstay ih =>
    exact pass argument rest (fun hmem => (mem_reserved_iff.mp hmem).elim hload hstay) ih

variable {tree}

theorem length_le_of_mem_firstOptions (h : place ∈ firstOptions tree arguments) :
    place.length ≤ arguments.length := by
  induction arguments using first_induction tree with
  | nil => cases h
  | leave argument rest _ hleave =>
    rw [hleave, List.mem_singleton] at h
    subst h
    exact Nat.le_refl _
  | load argument path rest _ hgo ih =>
    rw [hgo] at h
    rcases List.mem_cons.mp h with rfl | h
    · exact Nat.le_refl _
    · exact Nat.le_succ_of_le (Nat.le_succ_of_le (ih h))
  | pass argument rest hpass ih =>
    rw [firstOptions_of_notMem tree hpass] at h
    rcases List.mem_cons.mp h with rfl | h
    · exact Nat.le_refl _
    · exact Nat.le_succ_of_le (ih h)

/-- Where arguments are left, the first look takes the first of them for an option. -/
theorem mem_firstOptions_self (argument : String) (rest : List String) :
    argument :: rest ∈ firstOptions tree (argument :: rest) := by
  generalize h : argument :: rest = arguments
  cases arguments using first_induction tree with
  | nil => cases h
  | leave _ _ _ hleave => exact hleave ▸ List.mem_cons_self
  | load _ _ _ _ hgo => exact hgo ▸ List.mem_cons_self
  | pass _ _ hpass => exact firstOptions_of_notMem tree hpass _ ▸ List.mem_cons_self

/-- What stands after an option that the first look does not act on is the next option. -/
theorem mem_firstOptions_of_cons (hargument : argument ∉ reserved)
    (h : argument :: value :: rest ∈ firstOptions tree arguments) :
    value :: rest ∈ firstOptions tree arguments := by
  induction arguments using first_induction tree with
  | nil => cases h
  | leave first more hfirst hleave =>
    rw [hleave, List.mem_singleton] at h
    exact absurd ((List.cons.inj h).1 ▸ hfirst) hargument
  | load first path more hload hgo ih =>
    rw [hgo] at h ⊢
    rcases List.mem_cons.mp h with heq | h
    · exact absurd ((List.cons.inj heq).1 ▸ mem_reserved_iff.mpr (.inl hload)) hargument
    · exact List.mem_cons_of_mem _ (ih h)
  | pass first more hpass ih =>
    rw [firstOptions_of_notMem tree hpass] at h ⊢
    refine List.mem_cons_of_mem _ ?_
    rcases List.mem_cons.mp h with heq | h
    · rw [← (List.cons.inj heq).2]
      exact mem_firstOptions_self value rest
    · exact ih h

/-- What the first look acts on, if it leaves there. -/
theorem actedOn_of_leave (h : argument ∈ reserved)
    (hleave : firstOptions tree (argument :: rest) = [argument :: rest]) :
    actedOn tree (argument :: rest) = [argument :: rest] := by
  rw [actedOn, hleave, List.filter_cons, if_pos (isActedOn_cons.mpr h), List.filter_nil]

/-- What the first look acts on, if it loads a file there. -/
theorem actedOn_of_load {path : Path} (h : isLoadFlag argument = true)
    (hgo : firstOptions tree (argument :: path :: rest)
      = (argument :: path :: rest) :: firstOptions tree rest) :
    actedOn tree (argument :: path :: rest)
      = (argument :: path :: rest) :: actedOn tree rest := by
  have hacted := mem_reserved_iff.mpr (.inl h)
  rw [actedOn, hgo, List.filter_cons, if_pos (isActedOn_cons.mpr hacted), actedOn]

/-- Where the first look leaves, only the next argument can matter. -/
theorem lookFirst_take_two (h : argument ∈ reserved)
    (hleave : firstOptions tree (argument :: rest) = [argument :: rest]) (s : Settings) :
    lookFirst tree ((argument :: rest).take 2) s = lookFirst tree (argument :: rest) s := by
  cases rest with
  | nil => rfl
  | cons path more =>
    rw [List.take_succ_cons, List.take_succ_cons, List.take_zero, lookFirst.eq_def,
      lookFirst.eq_def tree (argument :: path :: more)]
    rw [firstOptions.eq_def] at hleave
    by_cases hload : isLoadFlag argument = true
    · cases hfile : Settings.ofFile tree path with
      | error cause => simp [hload, hfile]
      | ok loaded =>
        -- the file is loaded, so nothing is left to look at
        simp only [hload, if_true, hfile, List.cons.injEq, true_and] at hleave
        cases more with
        | nil => rfl
        | cons next more =>
          have hnext := @mem_firstOptions_self tree next more
          rw [hleave] at hnext
          cases hnext
    · rcases (mem_reserved_iff.mp h).resolve_left hload with rfl | rfl <;> simp [isLoadFlag]

/-- **The first look does the same if nothing else is there** than what it acts on, each with the
argument after it. -/
theorem lookFirst_actedOn (arguments : List String) (s : Settings) :
    lookFirst tree ((actedOn tree arguments).flatMap (·.take 2)) s = lookFirst tree arguments s := by
  induction arguments using first_induction tree generalizing s with
  | nil => rfl
  | leave argument rest hmem hleave =>
    rw [actedOn_of_leave hmem hleave, List.flatMap_singleton]
    exact lookFirst_take_two hmem hleave s
  | load argument path rest hload hgo ih =>
    rw [actedOn_of_load hload hgo, List.flatMap_cons]
    rw [lookFirst.eq_def, lookFirst.eq_def]
    simp [hload, ih]
  | pass argument rest hpass ih =>
    rw [actedOn_of_notMem tree hpass, ih]
    rw [mem_reserved_iff, not_or, not_or] at hpass
    rw [lookFirst.eq_def tree (argument :: rest)]
    simp [hpass]

end First

/-! ## Both looks -/

/-- Where both looks come to an override, its value is not spelled like something that the first look
acts on. -/
def ValuesSafe (tree : FileTree) (arguments : List String) : Prop :=
  ∀ option value rest, isOverride option = true →
    option :: value :: rest ∈ secondOptions arguments →
    option :: value :: rest ∈ firstOptions tree arguments → value ∉ reserved

/-- What holds of the values holds of the values in a rest at which both looks go on. -/
theorem ValuesSafe.of_subset (h : ValuesSafe tree arguments)
    (hsecond : secondOptions rest ⊆ secondOptions arguments)
    (hfirst : firstOptions tree rest ⊆ firstOptions tree arguments) : ValuesSafe tree rest :=
  fun option value more hoption hmem₂ hmem₁ =>
    h option value more hoption (hsecond hmem₂) (hfirst hmem₁)

theorem length_le_of_mem_actedOn (h : place ∈ actedOn tree arguments) :
    place.length ≤ arguments.length :=
  length_le_of_mem_firstOptions (List.mem_of_mem_filter h)

/-- All arguments together are no value. -/
theorem notMem_secondValues_self (arguments : List String) : arguments ∉ secondValues arguments :=
  fun hmem => absurd (length_lt_of_mem_secondValues hmem) (Nat.lt_irrefl _)

theorem mem_secondOptions_self (argument : String) (rest : List String) :
    argument :: rest ∈ secondOptions (argument :: rest) := by
  cases hvalue : takesValue argument with
  | false => exact (secondOptions_alone hvalue rest).1 ▸ List.mem_cons_self
  | true =>
    cases rest with
    | nil => exact (secondOptions_last argument).1 ▸ List.mem_cons_self
    | cons value rest => exact (secondOptions_value hvalue value rest).1 ▸ List.mem_cons_self

/-- Where the first look leaves, it acts on an option. -/
theorem option_of_leave {argument : String} (hmem : argument ∈ reserved)
    (hleave : firstOptions tree (argument :: rest) = [argument :: rest])
    (hacted : place ∈ actedOn tree (argument :: rest)) :
    place ∉ secondValues (argument :: rest) ∧ place ∈ secondOptions (argument :: rest) := by
  rw [actedOn_of_leave hmem hleave, List.mem_singleton] at hacted
  subst hacted
  exact ⟨notMem_secondValues_self _, mem_secondOptions_self argument rest⟩

/-- An option that is acted on behind another one and its value is an option of the whole. -/
theorem option_behind_value {argument : String} (hvalue : takesValue argument = true)
    (value : String) (hacted : place ∈ actedOn tree rest)
    (h : place ∉ secondValues rest ∧ place ∈ secondOptions rest) :
    place ∉ secondValues (argument :: value :: rest) ∧
      place ∈ secondOptions (argument :: value :: rest) := by
  obtain ⟨hoptions, hvalues⟩ := secondOptions_value hvalue value rest
  rw [hoptions, hvalues]
  refine ⟨fun hmem => ?_, List.mem_cons_of_mem _ h.2⟩
  -- the value is longer than all that is acted on behind it
  rcases List.mem_cons.mp hmem with rfl | hmem
  · exact Nat.not_succ_le_self _ (length_le_of_mem_actedOn hacted)
  · exact h.1 hmem

/-- Both looks stay together as long as the values are safe: what the first one acts on is an option of
the second one. -/
theorem ValuesSafe.mem_secondOptions (h : ValuesSafe tree arguments) {place : List String}
    (hacted : place ∈ actedOn tree arguments) :
    place ∉ secondValues arguments ∧ place ∈ secondOptions arguments := by
  -- by induction on the second look: where the first one leaves, it acts on the last option it sees
  induction arguments using secondOptions.induct with
  | case1 => cases hacted
  | case2 argument hvalue =>
    by_cases hmem : argument ∈ reserved
    · have hfirst : firstOptions tree [argument] = [[argument]] := by
        rw [firstOptions.eq_def]
        rcases mem_reserved_iff.mp hmem with hload | hother
        · simp [hload]
        · by_cases hload : isLoadFlag argument = true <;> simp [hload, hother]
      exact option_of_leave hmem hfirst hacted
    · rw [actedOn_of_notMem tree hmem] at hacted
      cases hacted
  | case3 argument hvalue value rest ih =>
    have heq := secondOptions_value hvalue value rest
    by_cases hload : isLoadFlag argument = true
    · have hmem := mem_reserved_iff.mpr (.inl hload)
      cases hfile : Settings.ofFile tree value with
      | error cause =>
        refine option_of_leave hmem ?_ hacted
        rw [firstOptions.eq_def]
        simp [hload, hfile]
      | ok loaded =>
        have hgo : firstOptions tree (argument :: value :: rest)
            = (argument :: value :: rest) :: firstOptions tree rest := by
          rw [firstOptions.eq_def]
          simp [hload, hfile]
        rw [actedOn_of_load hload hgo] at hacted
        rcases List.mem_cons.mp hacted with rfl | hrest
        · exact ⟨notMem_secondValues_self _, mem_secondOptions_self argument _⟩
        · have hsafe : ValuesSafe tree rest := h.of_subset
            (heq.1 ▸ List.subset_cons_self _ _) (hgo ▸ List.subset_cons_self _ _)
          exact option_behind_value hvalue value hrest (ih hsafe hrest)
    · have hover : isOverride argument = true := (Bool.or_eq_true_iff.mp hvalue).resolve_left hload
      have hmem := notMem_reserved_of_isOverride hover
      have hfirst := firstOptions_of_notMem tree hmem (value :: rest)
      have hvalueMem : value ∉ reserved := h argument value rest hover
        (mem_secondOptions_self argument _) (hfirst ▸ List.mem_cons_self)
      have hfirst' := firstOptions_of_notMem tree hvalueMem rest
      rw [actedOn_of_notMem tree hmem, actedOn_of_notMem tree hvalueMem] at hacted
      have hsafe : ValuesSafe tree rest := h.of_subset (heq.1 ▸ List.subset_cons_self _ _) <| by
        rw [hfirst, hfirst']
        exact fun place hplace => List.mem_cons_of_mem _ (List.mem_cons_of_mem _ hplace)
      exact option_behind_value hvalue value hacted (ih hsafe hacted)
  | case4 argument rest hvalue ih =>
    rw [Bool.not_eq_true] at hvalue
    have heq := secondOptions_alone hvalue rest
    by_cases hmem : argument ∈ reserved
    · have hload : isLoadFlag argument = false := (Bool.or_eq_false_iff.mp hvalue).1
      have hother := (mem_reserved_iff.mp hmem).resolve_left (by simp [hload])
      refine option_of_leave hmem ?_ hacted
      rw [firstOptions.eq_def]
      simp [hload, hother]
    · have hfirst := firstOptions_of_notMem tree hmem rest
      rw [actedOn_of_notMem tree hmem] at hacted
      have hsafe : ValuesSafe tree rest := h.of_subset
        (heq.1 ▸ List.subset_cons_self _ _) (hfirst ▸ List.subset_cons_self _ _)
      obtain ⟨hno, hoption⟩ := ih hsafe hacted
      rw [heq.1, heq.2]
      exact ⟨hno, List.mem_cons_of_mem _ hoption⟩

/-- **The two looks take the same arguments for options as long as no value is spelled like something
that the first look acts on.**  The second look is what it does at its options, and the first one what
it does at the places that it acts on.  If the first look comes to an override in front of such a
value, it acts on the value; and otherwise everything that it acts on is an option of the second look
and no value. -/
theorem acts_on_options_iff (tree : FileTree) (arguments : List String) :
    (∀ s, applyArguments arguments s = (secondOptions arguments).foldlM applyOption s) ∧
    (∀ s, lookFirst tree arguments s
      = lookFirst tree ((actedOn tree arguments).flatMap (·.take 2)) s) ∧
    ((∀ place ∈ actedOn tree arguments,
        place ∉ secondValues arguments ∧ place ∈ secondOptions arguments) ↔
      ∀ option value rest, isOverride option = true →
        option :: value :: rest ∈ secondOptions arguments →
        option :: value :: rest ∈ firstOptions tree arguments → value ∉ reserved) := by
  refine ⟨applyArguments_eq_foldlM arguments, fun s => (lookFirst_actedOn arguments s).symm,
    fun hacts option value rest hoption hsecond hfirst hvalue => ?_,
    fun hvalues place hacted => ValuesSafe.mem_secondOptions hvalues hacted⟩
  have htakes : takesValue option = true := by rw [takesValue, hoption, Bool.or_true]
  have hnext := mem_firstOptions_of_cons (notMem_reserved_of_isOverride hoption) hfirst
  exact (hacts _ (List.mem_filter.mpr ⟨hnext, isActedOn_cons.mpr hvalue⟩)).1
    (mem_secondValues htakes hsecond)

/-- The value of `--resume` may be any text.  If it is `--help`, the first look shows the help and
leaves, where the second look reads it as the name of a checkpoint and nothing else. -/
theorem acts_on_value_of_resume :
    ["--help"] ∈ actedOn ⟨[]⟩ ["--resume", "--help"] ∧
    ["--help"] ∈ secondValues ["--resume", "--help"] ∧
    ["--help"] ∉ secondOptions ["--resume", "--help"] ∧
    lookFirst ⟨[]⟩ ["--resume", "--help"] .standard = ([], .help) ∧
    applyArguments ["--resume", "--help"] .standard
      = .ok (Settings.standard.mapCheckpoint fun c => { c with resumeFrom := "--help" }) :=
  ⟨by decide +kernel, by decide +kernel, by decide +kernel, rfl, rfl⟩

end TapeLife
