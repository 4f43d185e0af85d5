import TapeLife.Proofs.Grid.History
import TapeLife.Proofs.Grid.Influence

/-!
# Proofs/Grid/StaleLocks — a lock is loaded, and gone after one epoch

    … ──load, byte 1──▸ locked ──nothing that settles the lock──▸ locked ──epoch──▸ free

Between changes nothing sets a lock but a load: `Grid.isLocked_apply` says of every change when a
cell is locked after it, and `Grid.isLocked_after` of every history, by the last load that succeeded
and by what came after it (`Grid.LockedByLoad`).  Nobody pairs with a locked cell, so it lives alone
for the one epoch that releases it (`Grid.lives_alone_of_isLocked`).
-/

namespace TapeLife

/-! ## The byte of a lock -/

theorem flagByte_eq_one {flag : Bool} : flagByte flag = 1 ↔ flag = true := by
  cases flag <;> decide

namespace Grid

variable {g : Grid} {i : Nat}

/-- Whether the soup has a cell of this number and the cell is locked. -/
def IsLocked (g : Grid) (i : Nat) : Prop := g.locks[i]? = some true

theorem isLocked_iff : g.IsLocked i ↔ ∃ cell, g.cells[i]? = some cell ∧ cell.locked = true := by
  rw [IsLocked, getElem?_locks, Option.map_eq_some_iff]

/-- **The lock of a cell stands at its place in the bytes of the soup.** -/
theorem isLocked_iff_save : g.IsLocked i ↔ g.save[47 + i * 73]? = some 1 := by
  have hbyte : g.save[47 + i * 73]? = g.cells[i]?.map fun cell => flagByte cell.locked := by
    rw [Option.map_eq_bind]
    exact g.getElem?_save i (by decide : 0 < recordSize)
  simp only [isLocked_iff, hbyte, Option.map_eq_some_iff, flagByte_eq_one]

theorem not_isLocked_grow (params : Params) (fill : Fill) : ¬ (grow params fill).IsLocked i := by
  rw [isLocked_iff]
  rintro ⟨cell, hcell, hlocked⟩
  obtain ⟨place, -, rfl⟩ := Array.mem_ofFn.mp (Array.mem_of_getElem? hcell)
  cases fill <;> exact absurd hlocked Bool.false_ne_true

/-- After at least one epoch nothing is locked. -/
theorem not_isLocked_compute (entropy : Nat → UInt64) {speed : Nat} (hspeed : 1 ≤ speed)
    (g : Grid) : ¬ (g.compute entropy speed).1.IsLocked i := by
  obtain ⟨speed, rfl⟩ := Nat.exists_eq_add_one.mpr hspeed
  rw [compute_succ, step, IsLocked, locks_stepWith, Array.getElem?_replicate]
  split <;> simp

end Grid

/-! ## What a change does to a lock -/

/-- Whether a change, if it succeeds, settles whether a cell is locked: it starts over, writes onto
the cell, lets at least one epoch pass, or loads. -/
def Change.Settles (g : Grid) (i : Nat) : Change → Prop
  | .reset _ _ => True
  | .set x y _ => g.place? x y = .ok i
  | .setBuiltIn x y _ => g.place? x y = .ok i
  | .compute _ speed => 1 ≤ speed
  | .load _ => True

/-- Whether a change is a load of bytes that say that a cell is locked. -/
def Change.ReadsLock (i : Nat) : Change → Prop
  | .load bytes => bytes[47 + i * 73]? = some 1
  | _ => False

namespace Grid

variable {g : Grid} {i : Nat}

/-- A change that settles the lock of a cell, and succeeds. -/
def Settled (g : Grid) (i : Nat) (change : Change) : Prop :=
  (g.apply change).2 = none ∧ change.Settles g i

/-- A load that reads that a cell is locked, and succeeds. -/
def LoadsLock (g : Grid) (i : Nat) (change : Change) : Prop :=
  (g.apply change).2 = none ∧ change.ReadsLock i

/-- Nothing settles the lock of a cell, from a soup on through some changes. -/
def Unsettled (i : Nat) : Grid → List Change → Prop
  | _, [] => True
  | g, change :: changes => ¬ g.Settled i change ∧ Unsettled i (g.apply change).1 changes

/-- The last load that succeeded read that a cell is locked, and nothing settled the lock since. -/
def LockedByLoad (g : Grid) (i : Nat) (changes : List Change) : Prop :=
  ∃ before load since, changes = before ++ load :: since ∧ (g.after before).LoadsLock i load ∧
    Unsettled i (g.after (before ++ [load])) since

/-- A program written onto one cell releases that cell and leaves every other one alone. -/
theorem isLocked_modify {j : Nat} (program : Program) :
    ({ g with cells := g.cells.modify j fun cell => (program.writeTo cell).unlock } :
        Grid).IsLocked i ↔ j ≠ i ∧ g.IsLocked i := by
  rw [isLocked_iff, isLocked_iff, Array.getElem?_modify]
  split
  · rename_i hij
    simp [hij, Cell.unlock]
  · rename_i hij
    simp [hij]

/-- **Only a load locks a cell**, and what does not settle the lock leaves it as it is. -/
theorem isLocked_apply (change : Change) :
    (g.apply change).1.IsLocked i ↔
      g.LoadsLock i change ∨ g.IsLocked i ∧ ¬ g.Settled i change := by
  rw [LoadsLock, Settled]
  obtain ⟨cause, h⟩ | ⟨seed, fill, rfl, h⟩ | ⟨x, y, j, program, hj, hc, h⟩ |
    ⟨entropy, speed, rfl, h⟩ | ⟨bytes, loaded, rfl, -, rfl, h⟩ := g.apply_cases change <;> rw [h]
  · -- A change that fails changes nothing, and neither loads nor settles anything.
    simp
  · simp [Change.ReadsLock, Change.Settles, reset, not_isLocked_grow]
  · rw [isLocked_modify]
    obtain rfl | ⟨id, rfl, -⟩ := hc <;> simp [Change.ReadsLock, Change.Settles, hj, and_comm]
  · rcases Nat.eq_zero_or_pos speed with rfl | hspeed
    · have hstay : (g.compute entropy 0).1 = g := rfl
      simp [Change.ReadsLock, Change.Settles, hstay]
    · have hnone := not_isLocked_compute (i := i) entropy hspeed g
      simp [Change.ReadsLock, Change.Settles, hnone, Nat.pos_iff_ne_zero.mp hspeed]
  · simp [Change.ReadsLock, Change.Settles, isLocked_iff_save]

/-! ## What a history does to a lock -/

theorem lockedByLoad_cons {change : Change} {changes : List Change} :
    g.LockedByLoad i (change :: changes) ↔
      g.LoadsLock i change ∧ Unsettled i (g.apply change).1 changes ∨
        (g.apply change).1.LockedByLoad i changes := by
  constructor
  · rintro ⟨before, load, since, hsplit, hload, hsince⟩
    cases before with
    | nil =>
      obtain ⟨rfl, rfl⟩ := List.cons.inj hsplit
      exact .inl ⟨hload, hsince⟩
    | cons first before =>
      obtain ⟨rfl, rfl⟩ := List.cons.inj hsplit
      exact .inr ⟨before, load, since, rfl, hload, hsince⟩
  · rintro (⟨hload, hsince⟩ | ⟨before, load, since, rfl, hload, hsince⟩)
    · exact ⟨[], change, changes, rfl, hload, hsince⟩
    · exact ⟨change :: before, load, since, rfl, hload, hsince⟩

/-- **A cell is locked after a history** if it was and nothing settled it, or by a load. -/
theorem isLocked_after (changes : List Change) :
    (g.after changes).IsLocked i ↔
      g.IsLocked i ∧ Unsettled i g changes ∨ g.LockedByLoad i changes := by
  induction changes generalizing g with
  | nil => simp [after, Unsettled, LockedByLoad]
  | cons change changes ih =>
    change ((g.apply change).1.after changes).IsLocked i ↔ _
    rw [ih, isLocked_apply, lockedByLoad_cons, Unsettled]
    tauto

/-! ## The epoch that a stale lock costs -/

/-- **A locked cell lives alone for an epoch**: it is in no pair, and it runs and mutates once. -/
theorem lives_alone_of_isLocked (hg : g.WellFormed) (key : UInt64) (hi : g.IsLocked i) :
    i ∉ membersOf (g.plan key).1.pairs ∧
      ((g.plan key).1.jobs g.cells.size).filter (fun job => decide (i ∈ job.cells))
        = [.alone i] ∧
      (g.stepWith key).1.cells[i]?
        = g.cells[i]?.map fun cell => (cell.liveAlone g.params.dose).1.unlock := by
  have hno : i ∉ membersOf (g.plan key).1.pairs := fun hmember =>
    Bool.false_ne_true (Option.some.inj
      (((conflictFree_plan hg key).free i hmember).symm.trans hi))
  have hno' : i ∉ membersOf (g.plan key).1.formed := fun hmember =>
    hno ((perm_membersOf (g.plan key).1.perm_pairs).mem_iff.mpr hmember)
  have hlt : i < g.cells.size := by
    obtain ⟨cell, hcell, -⟩ := isLocked_iff.mp hi
    exact (Array.getElem?_eq_some_iff.mp hcell).1
  refine ⟨hno, ?_, getElem?_stepWith_of_notMem hg hno'⟩
  rw [Plan.filter_jobs (nodup_members_plan hg key) hlt, Plan.jobOf_of_notMem hno']

/-- **A lock is loaded, and gone after one epoch.**  Take a soup that was created and then changed
in any way, failures among the changes.  A cell of it is locked if and only if the last load that
succeeded read that it is, and since then nobody started over, wrote onto the cell or computed an
epoch.  In the next epoch a locked cell is in no pair, its only job is to live alone, and it holds
what one run and one mutation leave of it.  After that epoch, and after any number of more, no cell
is locked. -/
theorem isLocked_iff_of_created {params : Params} {created : Grid} (h : create params = .ok created)
    (changes : List Change) :
    let g := created.after changes
    (∀ i, g.IsLocked i ↔ created.LockedByLoad i changes) ∧
      ∀ entropy : Nat → UInt64,
        let plan := (g.plan (g.key (entropy 0))).1
        let next := (g.compute entropy 1).1
        (∀ i cell, g.cells[i]? = some cell → cell.locked = true →
          (∀ pair ∈ plan.pairs, i ≠ pair.initiator ∧ i ≠ pair.partner) ∧
            (plan.jobs g.cells.size).filter (fun job => decide (i ∈ job.cells)) = [.alone i] ∧
            next.cells[i]? = some (((cell.runAlone g.params.dose.budget).1.mutate
              g.params.dose.threshold).1.unlock)) ∧
          ∀ speed, 1 ≤ speed → ∀ cell ∈ (g.compute entropy speed).1.cells,
            cell.locked = false := by
  intro g
  obtain ⟨hv, rfl⟩ := create_eq_ok.mp h
  have hg : g.WellFormed := (wellFormed_grow hv .zero).after changes
  refine ⟨fun i => ?_, fun entropy =>
    ⟨fun i cell hcell hlocked => ?_, fun speed hspeed cell hcell => ?_⟩⟩
  · rw [isLocked_after, or_iff_right fun hgrow => not_isLocked_grow params .zero hgrow.1]
  · obtain ⟨hno, hjobs, hnext⟩ := lives_alone_of_isLocked hg (g.key (entropy 0))
      (isLocked_iff.mpr ⟨cell, hcell, hlocked⟩)
    refine ⟨fun pair hp => ⟨?_, ?_⟩, hjobs, hnext.trans (by rw [hcell]; rfl)⟩
    · rintro rfl
      exact hno (mem_membersOf.mpr ⟨pair, hp, pair.initiator_mem_cells⟩)
    · rintro rfl
      exact hno (mem_membersOf.mpr ⟨pair, hp, pair.partner_mem_cells⟩)
  · obtain ⟨i, hi, rfl⟩ := Array.mem_iff_getElem.mp hcell
    refine Bool.eq_false_iff.mpr fun hlocked => not_isLocked_compute entropy hspeed g (i := i) ?_
    exact isLocked_iff.mpr ⟨_, Array.getElem?_eq_getElem hi, hlocked⟩

/-- A lock that is loaded over another history, and outlasts a load that fails, writes beside it and
no epochs at all. -/
theorem isLocked_iff_of_created_square :
    let created := grow square.params .zero
    let changes : List Change := [.set 0 0 .noise, .load square.save, .load [0x42],
      .setBuiltIn 1 1 1, .set 2 0 .empty, .compute (fun _ => 0) 0]
    let g := created.after changes
    create square.params = .ok created ∧
      g.cells[2]? = some ⟨true, Tape.blank, ⟨3⟩⟩ ∧ created.LockedByLoad 2 changes ∧
      ((g.plan (g.key 0)).1.jobs g.cells.size).filter (fun job => decide (2 ∈ job.cells))
        = [.alone 2] ∧
      1 ≤ 5 ∧ ∀ cell ∈ (g.compute (fun _ => 0) 5).1.cells, cell.locked = false := by
  intro created changes
  have hcreate : create square.params = .ok created :=
    create_eq_ok.mpr ⟨wellFormed_square.valid, rfl⟩
  have hcell : (created.after changes).cells[2]? = some ⟨true, Tape.blank, ⟨3⟩⟩ := by
    decide +kernel
  obtain ⟨hlocked, hnext⟩ := isLocked_iff_of_created hcreate changes
  obtain ⟨halone, hfree⟩ := hnext fun _ => 0
  have hfive : 1 ≤ 5 := by decide
  exact ⟨hcreate, hcell, (hlocked 2).mp (isLocked_iff.mpr ⟨_, hcell, rfl⟩),
    (halone 2 _ hcell rfl).2.1, hfive, hfree 5 hfive⟩

end Grid

end TapeLife
