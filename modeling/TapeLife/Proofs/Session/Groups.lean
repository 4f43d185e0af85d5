import Mathlib.Data.List.Perm.Basic
import TapeLife.Session.Command
import TapeLife.Session.Groups

/-!
# Proofs/Session/Groups — the order of arguments does not matter

    first look   ──▸ base                    the groups that load a file count, wherever they stand
    second look  ──▸ base, group by group    a slot holds what a group gave to it, or the base's value

Each look takes a whole group at a time.  The first one passes over a group unless it loads a file
(`exists_lookFirst`); the second one puts what the group gives into the slots
(`ArgumentGroup.Complete.exists_step`).  Groups that are apart do not disagree about a slot
(`ArgumentGroup.Apart.agree`), so the settings in the end can be said slot by slot, without the
order of the groups (`exists_applyArguments`), and only one settings are like that
(`Overridden.unique`).
-/

namespace TapeLife

namespace Slot

/-! ## Slots -/

variable {slot : Slot} {argument option value : String}

/-- **Settings are what their slots hold.** -/
theorem ext {s t : Settings} (h : ∀ slot, read slot s = read slot t) : s = t := by
  obtain ⟨⟨⟩, ⟨⟩, _, ⟨⟩, ⟨⟩⟩ := s
  obtain ⟨⟨⟩, ⟨⟩, _, ⟨⟩, ⟨⟩⟩ := t
  simp only [Settings.mk.injEq, Params.mk.injEq, RunSettings.mk.injEq, CheckpointSettings.mk.injEq,
    MetricsSettings.mk.injEq]
  exact ⟨⟨h seed, h fixedShuffle, h maxSteps, h maxDist, h rate, h width, h height⟩,
    ⟨h epochs, h speed, h init, h reportInterval⟩, h seeds,
    ⟨h checkpointEnabled, h checkpointInterval, h checkpointPath, h resumeFrom⟩,
    h metricsEnabled, h metricsInterval, h outputFile, h brotliQuality⟩

theorem mem_of_lookup_eq_some {α β : Type} [BEq α] [LawfulBEq α] {table : List (α × β)} {a : α}
    {b : β} (h : table.lookup a = some b) : (a, b) ∈ table := by
  obtain ⟨front, behind, rfl, -⟩ := List.lookup_eq_some_iff.mp h
  simp

theorem option_notMem_reserved (h : ofOption? option = some slot) :
    option ∉ ArgumentGroup.reserved := by
  have hall : ∀ entry ∈ optionTable, entry.1 ∉ ArgumentGroup.reserved := by decide
  exact hall _ (mem_of_lookup_eq_some h)

theorem switch_notMem_reserved (h : ofSwitch? argument = some slot) :
    argument ∉ ArgumentGroup.reserved := by
  have hall : ∀ entry ∈ switchTable, entry.1 ∉ ArgumentGroup.reserved := by decide
  exact hall _ (mem_of_lookup_eq_some h)

/-- A slot is switched to one value, whatever switches it. -/
theorem switched?_agree {other : String} {a b : slot.Value} (h : slot.switched? argument = some a)
    (h' : slot.switched? other = some b) : a = b := by
  cases slot <;> simp only [switched?, Option.ite_none_right_eq_some, reduceCtorEq] at h h' <;>
    exact Option.some.inj (h.2.symm.trans h'.2)

/-- What an option names is not what a switch gives. -/
theorem switched?_of_option (h : ofOption? option = some slot) (argument : String) :
    slot.switched? argument = none := by
  have hall : ∀ entry ∈ optionTable, entry.2 ≠ fixedShuffle ∧ entry.2 ≠ checkpointEnabled ∧
      entry.2 ≠ metricsEnabled := by decide
  obtain ⟨hshuffle, hcheckpoint, hmetrics⟩ := hall _ (mem_of_lookup_eq_some h)
  cases slot <;> first | rfl | contradiction

theorem apply_of {α : Type} {flags : List String} {read? : String → Option α}
    {put : α → Settings → Settings} {a : α} (h : read? value = some a) (s : Settings) :
    (Override.of flags read? put).apply value s = some (put a s) :=
  congrArg (Option.map _) h

/-- **An option with a value that it accepts** puts the value into its slot, and switches what it
switches. -/
theorem exists_override {a : slot.Value} (h : ofOption? option = some slot)
    (ha : slot.parse value = some a) (s : Settings) :
    ∃ override s', overrides.find? (·.flags.contains option) = some override ∧
      override.apply value s = some s' ∧ read slot s' = a ∧
      ∀ other ≠ slot, read other s' = (other.switched? option).getD (read other s) := by
  have hmem := mem_of_lookup_eq_some h
  simp only [optionTable, List.mem_cons, List.not_mem_nil, or_false, Prod.mk.injEq] at hmem
  rcases hmem with ⟨rfl, rfl⟩ | ⟨rfl, rfl⟩ | ⟨rfl, rfl⟩ | ⟨rfl, rfl⟩ | ⟨rfl, rfl⟩ | ⟨rfl, rfl⟩ |
    ⟨rfl, rfl⟩ | ⟨rfl, rfl⟩ | ⟨rfl, rfl⟩ | ⟨rfl, rfl⟩ | ⟨rfl, rfl⟩ | ⟨rfl, rfl⟩ | ⟨rfl, rfl⟩ |
    ⟨rfl, rfl⟩ | ⟨rfl, rfl⟩ | ⟨rfl, rfl⟩ | ⟨rfl, rfl⟩ | ⟨rfl, rfl⟩ <;>
  · refine ⟨_, _, rfl, apply_of ha s, rfl, fun other hne => ?_⟩
    cases other <;> first | exact absurd rfl hne | rfl

/-- **A switch** switches its slot, and nothing else. -/
theorem exists_switch (h : ofSwitch? argument = some slot) (s : Settings) :
    ∃ switch, overrides.find? (·.flags.contains argument) = none ∧
      switches.lookup argument = some switch ∧
      ∀ other, read other (switch s) = (other.switched? argument).getD (read other s) := by
  have hmem := mem_of_lookup_eq_some h
  simp only [switchTable, List.mem_cons, List.not_mem_nil, or_false, Prod.mk.injEq] at hmem
  rcases hmem with ⟨rfl, rfl⟩ | ⟨rfl, rfl⟩ <;>
  · refine ⟨_, rfl, rfl, fun other => ?_⟩
    cases other <;> rfl

end Slot

namespace ArgumentGroup

/-! ## One group -/

variable {group other : ArgumentGroup} {slot : Slot}

theorem isLoadFlag_eq_false {argument : String} (h : argument ∉ reserved) :
    isLoadFlag argument = false := by
  simp only [reserved, List.mem_cons, not_or] at h
  simp [isLoadFlag, h.1, h.2.1]

/-- **What a whole group does in the second look**: every slot holds what the group gives to it. -/
theorem Complete.exists_step (h : group.Complete) (s : Settings) :
    ∃ s', (∀ rest, applyArguments (group.arguments ++ rest) s = applyArguments rest s') ∧
      ∀ slot, slot.read s' = (group.gives? slot).getD (slot.read s) := by
  cases h with
  | load path hflag =>
    refine ⟨s, fun rest => ?_, fun slot => rfl⟩
    rw [arguments, List.cons_append, applyArguments.eq_def]
    simp only [hflag, if_true, List.cons_append, List.nil_append]
  | assign hslot hvalue hreserved =>
    obtain ⟨a, ha⟩ := Option.isSome_iff_exists.mp hvalue
    obtain ⟨override, s', hfind, happly, hown, hother⟩ := Slot.exists_override hslot ha s
    refine ⟨s', fun rest => ?_, fun slot' => ?_⟩
    · have hload := isLoadFlag_eq_false (Slot.option_notMem_reserved hslot)
      rw [arguments, List.cons_append, applyArguments.eq_def]
      simp only [hload, hfind, happly, List.cons_append, List.nil_append, if_false,
        Bool.false_eq_true]
    · rw [gives?, hslot]
      split
      · rename_i heq
        obtain rfl := Option.some.inj heq
        rw [ha, hown]
        rfl
      · rename_i hne
        exact hother slot' fun heq => hne (congrArg some heq.symm)
  | switch hslot =>
    obtain ⟨switch, hfind, hlookup, hslots⟩ := Slot.exists_switch hslot s
    refine ⟨switch s, fun rest => ?_, hslots⟩
    have hload := isLoadFlag_eq_false (Slot.switch_notMem_reserved hslot)
    rw [arguments, List.cons_append, applyArguments.eq_def]
    simp only [hload, hfind, hlookup, List.nil_append, if_false, Bool.false_eq_true]

/-- **Groups that are apart do not disagree** about a slot: they name different ones, and what they
switch they switch alike. -/
theorem Apart.agree (h : group.Apart other) {a b : slot.Value} (ha : group.gives? slot = some a)
    (hb : other.gives? slot = some b) : a = b := by
  -- what a group gives without naming the slot is switched
  have switched_or_named {group : ArgumentGroup} {a : slot.Value}
      (ha : group.gives? slot = some a) :
      (∃ argument, slot.switched? argument = some a) ∨
        ∃ option value, group = .assign option value ∧ Slot.ofOption? option = some slot := by
    cases group with
    | load => cases ha
    | assign option value =>
      rw [gives?] at ha
      split at ha
      · exact .inr ⟨option, value, rfl, ‹_›⟩
      · exact .inl ⟨option, ha⟩
    | switch argument => exact .inl ⟨argument, ha⟩
  rcases switched_or_named ha with ⟨_, hsa⟩ | ⟨option, value, rfl, hoption⟩ <;>
    rcases switched_or_named hb with ⟨_, hsb⟩ | ⟨option', value', rfl, hoption'⟩
  · exact Slot.switched?_agree hsa hsb
  · exact absurd hsa (by simp [Slot.switched?_of_option hoption'])
  · exact absurd hsb (by simp [Slot.switched?_of_option hoption])
  · exact absurd hoption' (h slot hoption)

theorem Apart.symm (h : group.Apart other) : other.Apart group := by
  cases group <;> cases other <;>
    first | exact h | exact fun slot hother hgroup => h slot hgroup hother

/-- **What a whole group does in the first look**: nothing unless it loads a file. -/
theorem Complete.lookFirst_append (h : group.Complete) (tree : FileTree) (rest : List String)
    (s : Settings) (hload : ∀ flag path, group ≠ .load flag path) :
    lookFirst tree (group.arguments ++ rest) s = lookFirst tree rest s := by
  have skip {argument : String} (h : argument ∉ reserved) (rest : List String) :
      lookFirst tree (argument :: rest) s = lookFirst tree rest s := by
    rw [lookFirst.eq_def]
    simp only [reserved, List.mem_cons, List.not_mem_nil, or_false, not_or] at h
    simp [isLoadFlag, h]
  cases h with
  | load path hflag => exact absurd rfl (hload _ _)
  | assign hslot _ hreserved =>
    exact (skip (Slot.option_notMem_reserved hslot) _).trans (skip hreserved _)
  | switch hslot => exact skip (Slot.switch_notMem_reserved hslot) _

end ArgumentGroup

/-! ## All groups -/

open ArgumentGroup

variable {groups order : List ArgumentGroup} {tree : FileTree} {base final final' : Settings}

/-- **The first look** ends with the settings in the file, wherever the group that loads it stands,
or else with those it began with. -/
theorem exists_lookFirst (hcomplete : ∀ group ∈ order, group.Complete)
    (hloaded : ∀ flag path, .load flag path ∈ order → Settings.ofFile tree path = .ok base)
    (s : Settings) (hs : (∀ flag path, .load flag path ∉ order) → s = base) :
    ∃ paths, lookFirst tree (order.flatMap arguments) s = (paths, .goOn base) := by
  induction order generalizing s with
  | nil => exact ⟨[], by rw [hs (by simp)]; rfl⟩
  | cons group order ih =>
    have hrest : ∀ group ∈ order, group.Complete := fun g hg => hcomplete g (.tail _ hg)
    have hloaded' : ∀ flag path, .load flag path ∈ order → Settings.ofFile tree path = .ok base :=
      fun flag path hmem => hloaded flag path (.tail _ hmem)
    by_cases hload : ∃ flag path, group = .load flag path
    · obtain ⟨flag, path, rfl⟩ := hload
      obtain ⟨paths, hpaths⟩ := ih hrest hloaded' base fun _ => rfl
      refine ⟨path :: paths, ?_⟩
      cases hcomplete _ (.head _) with
      | load _ hflag =>
        rw [List.flatMap_cons, lookFirst.eq_def]
        simp only [arguments, List.cons_append, List.nil_append, hflag, if_true,
          hloaded flag path (.head _), hpaths]
    · have hload' : ∀ flag path, group ≠ .load flag path := fun flag path h => hload ⟨_, _, h⟩
      rw [List.flatMap_cons, (hcomplete _ (.head _)).lookFirst_append tree _ s hload']
      refine ih hrest hloaded' s fun hno => hs fun flag path hmem => ?_
      rcases List.mem_cons.mp hmem with rfl | hmem
      · exact hload' flag path rfl
      · exact hno flag path hmem

/-- **The second look** leads to settings in which every slot holds what a group gives to it. -/
theorem exists_applyArguments (hcomplete : ∀ group ∈ order, group.Complete)
    (hapart : order.Pairwise Apart) (base : Settings) :
    ∃ final, applyArguments (order.flatMap arguments) base = .ok final ∧
      Overridden order base final := by
  induction order generalizing base with
  | nil => exact ⟨base, rfl, by simp, fun _ _ => rfl⟩
  | cons group order ih =>
    obtain ⟨happart, hrest⟩ := List.pairwise_cons.mp hapart
    obtain ⟨s, happly, hs⟩ := (hcomplete _ (.head _)).exists_step base
    obtain ⟨final, hfinal, hgiven, hkept⟩ :=
      ih (fun g hg => hcomplete g (.tail _ hg)) hrest s
    refine ⟨final, by rw [List.flatMap_cons, happly, hfinal], fun g hg slot a ha => ?_,
      fun slot hnone => ?_⟩
    · rcases List.mem_cons.mp hg with rfl | hg
      · -- what the group gave holds until the end: the others leave the slot alone or agree
        by_cases hnone : ∀ other ∈ order, other.gives? slot = none
        · rw [hkept slot hnone, hs slot, ha, Option.getD_some]
        · simp only [not_forall] at hnone
          obtain ⟨other, hother, hsome⟩ := hnone
          obtain ⟨b, hb⟩ := Option.ne_none_iff_exists'.mp hsome
          rw [hgiven other hother slot b hb, (happart other hother).agree ha hb]
      · exact hgiven g hg slot a ha
    · rw [hkept slot fun g hg => hnone g (.tail _ hg), hs slot, hnone group (.head _),
        Option.getD_none]

/-- There is one way only to override settings. -/
theorem Overridden.unique (h : Overridden groups base final) (h' : Overridden groups base final') :
    final = final' := by
  refine Slot.ext fun slot => ?_
  by_cases hnone : ∀ group ∈ groups, group.gives? slot = none
  · rw [h.kept slot hnone, h'.kept slot hnone]
  · simp only [not_forall] at hnone
    obtain ⟨group, hgroup, hsome⟩ := hnone
    obtain ⟨a, ha⟩ := Option.ne_none_iff_exists'.mp hsome
    rw [h.given group hgroup slot a ha, h'.given group hgroup slot a ha]

theorem Overridden.of_perm (h : Overridden order base final) (hperm : order.Perm groups) :
    Overridden groups base final :=
  ⟨fun group hgroup => h.given group (hperm.mem_iff.mpr hgroup),
    fun slot hnone => h.kept slot fun group hgroup => hnone group (hperm.mem_iff.mp hgroup)⟩

/-- **Overrides beat the file in any order**: whichever way whole groups of arguments that are apart
stand on the command line, the first look ends with the settings in the file, the second one with
one and the same settings, in which exactly the slots that groups give something to are replaced,
and the command line is refused just when these settings are. -/
theorem Command.overrides_beat_file (hcomplete : ∀ group ∈ groups, group.Complete)
    (hapart : groups.Pairwise Apart) (hstart : StartsFrom tree groups base) :
    ∃ final, Overridden groups base final ∧ ∀ order : List ArgumentGroup, order.Perm groups →
      (∃ paths, lookFirst tree (order.flatMap arguments) .standard = (paths, .goOn base)) ∧
      settle (order.flatMap arguments) base =
        match final.check with
        | .ok warnings => .ok (final, warnings)
        | .error cause => .error (.refused cause) := by
  obtain ⟨final, -, hfinal⟩ := exists_applyArguments hcomplete hapart base
  refine ⟨final, hfinal, fun order hperm => ?_⟩
  have hcomplete' : ∀ group ∈ order, group.Complete := fun g hg => hcomplete g (hperm.mem_iff.mp hg)
  have hapart' : order.Pairwise Apart :=
    (hperm.pairwise_iff fun h => h.symm).mpr hapart
  constructor
  · refine exists_lookFirst hcomplete'
      (fun flag path hmem => hstart.loaded flag path (hperm.mem_iff.mp hmem)) .standard fun hno => ?_
    exact (hstart.standard fun flag path hmem => hno flag path (hperm.mem_iff.mpr hmem)).symm
  · obtain ⟨final', happly, hfinal'⟩ := exists_applyArguments hcomplete' hapart' base
    obtain rfl := hfinal.unique (hfinal'.of_perm hperm)
    cases hcheck : final.check <;> simp only [settle, happly, bind, Except.bind, hcheck] <;> rfl

/-- Five groups around a file: the file's width gives way, its number of epochs stays, both sections
are switched on, and the name of an option can be the name of a file. -/
theorem Command.overrides_beat_file_around :
    let tree : FileTree :=
      ⟨[(["soup.yaml"], .file "world:\n  width: 6\nrun:\n  epochs: 5\n".toUTF8.toList)]⟩
    let base := (Settings.standard.mapWorld fun p => { p with width := 6 }).mapRun fun r =>
      { r with epochs := 5 }
    let groups : List ArgumentGroup := [.assign "-w" "7", .switch "--metrics",
      .load "-c" "soup.yaml", .assign "--checkpoint-interval" "32",
      .assign "--metrics-file" "--speed"]
    ((∀ group ∈ groups, group.Complete) ∧ groups.Pairwise Apart ∧ StartsFrom tree groups base) ∧
    ∃ final : Settings, (final.world.width = 7 ∧ final.run.epochs = 5 ∧
        final.checkpoint.enabled = true ∧ final.metrics.enabled = true ∧
        final.metrics.outputFile = "--speed") ∧
      ∀ order : List ArgumentGroup, order.Perm groups →
        (∃ paths, lookFirst tree (order.flatMap arguments) .standard = (paths, .goOn base)) ∧
        settle (order.flatMap arguments) base =
          match final.check with
          | .ok warnings => .ok (final, warnings)
          | .error cause => .error (.refused cause) := by
  intro tree base groups
  have hcomplete : ∀ group ∈ groups, group.Complete := by
    simp only [groups, List.forall_mem_cons]
    refine ⟨?_, ?_, ?_, ?_, ?_, by simp⟩
    · exact .assign (rfl : Slot.ofOption? "-w" = some .width) (by decide +kernel) (by decide)
    · exact .switch (rfl : Slot.ofSwitch? "--metrics" = some .metricsEnabled)
    · exact .load _ (by decide)
    · exact .assign (rfl : Slot.ofOption? "--checkpoint-interval" = some .checkpointInterval)
        (by decide +kernel) (by decide)
    · exact .assign (rfl : Slot.ofOption? "--metrics-file" = some .outputFile) rfl (by decide)
  have hapart : groups.Pairwise Apart := by
    simp only [groups, List.pairwise_cons, List.forall_mem_cons, Apart, Names]
    refine ⟨⟨?_, ?_, ?_, ?_, by simp⟩, ⟨?_, ?_, ?_, by simp⟩, ⟨?_, ?_, by simp⟩, ⟨?_, by simp⟩,
      by simp, .nil⟩ <;> (intro slot; cases slot <;> decide)
  have hread : (Settings.ofFile tree "soup.yaml").toOption = some base := by decide +kernel
  have hstart : StartsFrom tree groups base := by
    refine ⟨fun flag path hmem => ?_, fun hno => absurd ?_ (hno "-c" "soup.yaml")⟩
    · obtain ⟨-, rfl⟩ : flag = "-c" ∧ path = "soup.yaml" := by simpa [groups] using hmem
      cases hfile : Settings.ofFile tree "soup.yaml" with
      | ok s => rw [hfile] at hread; exact congrArg _ (Option.some.inj hread)
      | error cause => rw [hfile] at hread; cases hread
    · simp [groups]
  obtain ⟨final, ⟨hgiven, hkept⟩, horder⟩ :=
    Command.overrides_beat_file hcomplete hapart hstart
  refine ⟨⟨hcomplete, hapart, hstart⟩, final, ⟨?_, ?_, ?_, ?_, ?_⟩, horder⟩
  · exact hgiven (.assign "-w" "7") (by simp [groups]) .width (7 : UInt32) (by decide +kernel)
  · exact hkept .epochs (by decide)
  · exact hgiven (.assign "--checkpoint-interval" "32") (by simp [groups]) .checkpointEnabled true
      (by decide)
  · exact hgiven (.switch "--metrics") (by simp [groups]) .metricsEnabled true (by decide)
  · exact hgiven (.assign "--metrics-file" "--speed") (by simp [groups]) .outputFile "--speed"
      (by decide)

end TapeLife
