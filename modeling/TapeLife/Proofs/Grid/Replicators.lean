import TapeLife.Proofs.Grid.Batches
import TapeLife.Proofs.Machine.Copier

/-!
# Proofs/Grid/Replicators — a soup of replicators only grows

    replicator ─┐              replicator
                ├─ meet, run ─▸
    blank ──────┘              replicator

In a soup of blank tapes and replicators without mutation, a run changes one tape at most, a blank
one that a replicator has as its partner (`Cell.tape_liveBeside`).  Each cell has one job in an
epoch, so the tapes after the epoch can be written down (`tapeAt?_stepWith`): the new replicators
are the blank partners of replicators, each once (`perm_replicators_stepWith`).  Such a soup stays
one, whatever the keys are, and its replicators are never lost (`replicators_compute`).
-/

namespace TapeLife

/-! ## Without mutation -/

theorem bytes_mutate_zero (bytes : List UInt8) (s : Stream) : (mutate 0 bytes s).bytes = bytes := by
  induction bytes generalizing s with
  | nil => rfl
  | cons byte bytes ih => rw [mutate, if_neg (Nat.not_lt_zero _), ih]

namespace Cell

variable {a b : Cell} {dose : Dose}

theorem tape_mutate_zero (cell : Cell) : (cell.mutate 0).1.tape = cell.tape := by
  rw [mutate, bytes_mutate_zero]
  exact Tape.ofBytes_toList cell.tape

theorem tape_liveAlone (hbudget : 21 ≤ dose.budget) (hthreshold : dose.threshold = 0)
    (ha : a.tape.IsBlankOrReplicator) : (a.liveAlone dose).1.tape = a.tape := by
  simp only [liveAlone, runAlone_eq_self ha hbudget, hthreshold, tape_mutate_zero]

/-- **A blank partner of a replicator becomes one, and nothing else changes.** -/
theorem tape_liveBeside (hbudget : 21 ≤ dose.budget) (hthreshold : dose.threshold = 0)
    (ha : a.tape.IsBlankOrReplicator) (hb : b.tape.IsBlankOrReplicator) :
    (a.liveBeside dose b).1.1.tape = a.tape ∧
      (a.liveBeside dose b).1.2.tape =
        if a.tape = Program.replicatorTape then Program.replicatorTape else b.tape := by
  obtain ⟨hown, hneighbour⟩ := runBeside_eq ha hb hbudget
  simp only [liveBeside, hown, hneighbour, hthreshold, tape_mutate_zero, and_self]

end Cell

namespace Grid

variable {g : Grid} {key : UInt64} {i : Nat}

/-! ## Soups of replicators -/

/-- A soup in which replicators are the only life: every tape is blank or the replicator, nothing
mutates, and there are steps enough to copy. -/
structure IsReplicatorSoup (g : Grid) : Prop where
  wellFormed : g.WellFormed
  tapes : ∀ cell ∈ g.cells, cell.tape.IsBlankOrReplicator
  rate : mutationThreshold g.params.rate = 0
  maxSteps : 21 ≤ g.params.maxSteps.toNat

/-- The tape of a cell. -/
def tapeAt? (g : Grid) (i : Nat) : Option Tape := g.cells[i]?.map (·.tape)

/-- The cells that hold the replicator. -/
def replicators (g : Grid) : List Nat :=
  (List.range g.cells.size).filter fun i => g.tapeAt? i = some Program.replicatorTape

/-- The initiator of the pair holds the replicator, and the partner is blank. -/
def Spreads (g : Grid) (pair : Pair) : Prop :=
  g.tapeAt? pair.initiator = some Program.replicatorTape ∧
    g.tapeAt? pair.partner = some Tape.blank

instance (g : Grid) (pair : Pair) : Decidable (g.Spreads pair) :=
  inferInstanceAs (Decidable (_ ∧ _))

theorem mem_replicators : i ∈ g.replicators ↔ g.tapeAt? i = some Program.replicatorTape := by
  simp only [replicators, List.mem_filter, List.mem_range, decide_eq_true_iff,
    and_iff_right_iff_imp]
  intro h
  obtain ⟨cell, hcell, -⟩ := Option.map_eq_some_iff.mp h
  exact (Array.getElem?_eq_some_iff.mp hcell).1

theorem nodup_replicators (g : Grid) : g.replicators.Nodup := List.nodup_range.filter _

theorem blank_ne_replicatorTape : Tape.blank ≠ Program.replicatorTape :=
  fun h => absurd (congrArg (·[0]?) h) (by decide)

/-! ## One epoch -/

/-- In a plan a cell is the partner of one pair at most, and leads no pair then. -/
theorem eq_of_partner_mem_cells (hg : g.WellFormed) {pair other : Pair}
    (hp : pair ∈ (g.plan key).1.formed) (ho : other ∈ (g.plan key).1.formed)
    (h : other.partner ∈ pair.cells) : other = pair ∧ other.partner ≠ pair.initiator := by
  have hnd := nodup_members_plan hg key
  obtain rfl := eq_of_mem_cells hnd ho hp other.partner_mem_cells h
  exact ⟨rfl, partner_ne_initiator hnd ho⟩

section Epoch

variable (hg : g.IsReplicatorSoup)
include hg

/-- The initiator of a pair keeps its tape, and the partner of a replicator becomes one. -/
theorem tapeAt?_of_mem_plan {pair : Pair} (hp : pair ∈ (g.plan key).1.formed) :
    (g.stepWith key).1.tapeAt? pair.initiator = g.tapeAt? pair.initiator ∧
      (g.stepWith key).1.tapeAt? pair.partner =
        if g.tapeAt? pair.initiator = some Program.replicatorTape
        then some Program.replicatorTape else g.tapeAt? pair.partner := by
  obtain ⟨a, b, ha, hb, ha', hb'⟩ := cells_of_mem_plan hg.wellFormed hp
  obtain ⟨hown, hother⟩ := @Cell.tape_liveBeside a b g.params.dose hg.maxSteps hg.rate
    (hg.tapes a (Array.mem_of_getElem? ha)) (hg.tapes b (Array.mem_of_getElem? hb))
  simp only [tapeAt?, ha, hb, ha', hb', Option.map_some, Cell.tape_unlock, hown, hother,
    Option.some_inj, true_and]
  exact apply_ite some _ _ _

/-- A cell in no pair keeps its tape. -/
theorem tapeAt?_of_notMem_plan (hno : i ∉ membersOf (g.plan key).1.formed) :
    (g.stepWith key).1.tapeAt? i = g.tapeAt? i := by
  rw [tapeAt?, getElem?_stepWith_of_notMem hg.wellFormed hno, Option.map_map, tapeAt?]
  refine Option.map_congr fun cell hcell => ?_
  exact Cell.tape_liveAlone hg.maxSteps hg.rate (hg.tapes cell (Array.mem_of_getElem? hcell))

/-- **The tapes after an epoch**: a cell holds the replicator if it was the partner of one, and
otherwise what was there before. -/
theorem tapeAt?_stepWith (key : UInt64) (i : Nat) :
    (g.stepWith key).1.tapeAt? i =
      if ∃ pair ∈ (g.plan key).1.formed, pair.partner = i ∧
          g.tapeAt? pair.initiator = some Program.replicatorTape
      then some Program.replicatorTape else g.tapeAt? i := by
  obtain ⟨pair, hp, rfl⟩ | ⟨pair, hp, rfl⟩ | hno := membersOf_cases (g.plan key).1.formed i
  · rw [(tapeAt?_of_mem_plan hg hp).1, if_neg]
    rintro ⟨other, ho, heq, -⟩
    obtain ⟨rfl, hne⟩ :=
      eq_of_partner_mem_cells hg.wellFormed hp ho (heq ▸ pair.initiator_mem_cells)
    exact hne heq
  · rw [(tapeAt?_of_mem_plan hg hp).2]
    refine ite_congr (propext ⟨fun h => ⟨pair, hp, rfl, h⟩, ?_⟩) (fun _ => rfl) fun _ => rfl
    rintro ⟨other, ho, heq, h⟩
    obtain ⟨rfl, -⟩ :=
      eq_of_partner_mem_cells hg.wellFormed hp ho (heq ▸ pair.partner_mem_cells)
    exact h
  · rw [tapeAt?_of_notMem_plan hg hno, if_neg]
    rintro ⟨pair, hp, rfl, -⟩
    exact hno (mem_membersOf.mpr ⟨pair, hp, pair.partner_mem_cells⟩)

/-- **A soup of replicators stays one.** -/
theorem IsReplicatorSoup.stepWith (key : UInt64) : (g.stepWith key).1.IsReplicatorSoup where
  wellFormed := hg.wellFormed.stepWith key
  rate := hg.rate
  maxSteps := hg.maxSteps
  tapes := by
    intro cell hcell
    obtain ⟨i, hi⟩ := Array.mem_iff_getElem?.mp hcell
    have htape : (g.stepWith key).1.tapeAt? i = some cell.tape := congrArg (Option.map Cell.tape) hi
    rw [tapeAt?_stepWith hg] at htape
    split at htape
    · exact .inr (Option.some.inj htape).symm
    · obtain ⟨before, hbefore, heq⟩ := Option.map_eq_some_iff.mp htape
      exact heq ▸ hg.tapes before (Array.mem_of_getElem? hbefore)

/-- A cell becomes a replicator if it is a blank partner of one. -/
theorem tapeAt?_stepWith_eq_replicator_iff (key : UInt64) (i : Nat) :
    (g.stepWith key).1.tapeAt? i = some Program.replicatorTape ↔
      g.tapeAt? i = some Program.replicatorTape ∨
        ∃ pair ∈ (g.plan key).1.formed, pair.partner = i ∧ g.Spreads pair := by
  rw [tapeAt?_stepWith hg]
  constructor
  · intro h
    split at h
    · rename_i hpartner
      obtain ⟨pair, hp, rfl, hinitiator⟩ := hpartner
      have hlt := lt_size_of_mem_plan hg.wellFormed key
        (mem_membersOf.mpr ⟨pair, hp, pair.partner_mem_cells⟩)
      have hcell : g.tapeAt? pair.partner = some g.cells[pair.partner].tape := by
        rw [tapeAt?, Array.getElem?_eq_getElem hlt, Option.map_some]
      obtain hblank | hreplicator := hg.tapes _ (Array.getElem_mem hlt)
      · exact .inr ⟨pair, hp, rfl, hinitiator, by rw [hcell, hblank]⟩
      · exact .inl (by rw [hcell, hreplicator])
    · exact .inl h
  · rintro (h | ⟨pair, hp, rfl, hinitiator, -⟩)
    · rw [h, ite_self]
    · exact if_pos ⟨pair, hp, rfl, hinitiator⟩

/-- **The replicators after an epoch**: those before it, and the blank partners of replicators. -/
theorem perm_replicators_stepWith (key : UInt64) :
    (g.stepWith key).1.replicators.Perm
      (g.replicators ++ ((g.plan key).1.pairs.filter (g.Spreads ·)).map (·.partner)) := by
  have hwell := hg.wellFormed
  have hperm := (g.plan key).1.perm_pairs
  have hnd : (g.plan key).1.pairs.Nodup :=
    hperm.nodup_iff.mpr (nodup_of_nodup_membersOf (nodup_members_plan hwell key))
  have hmem : ∀ {pair}, pair ∈ (g.plan key).1.pairs.filter (g.Spreads ·) ↔
      pair ∈ (g.plan key).1.formed ∧ g.Spreads pair := by
    simp [List.mem_filter, hperm.mem_iff]
  -- no cell is the partner of two pairs
  have hpartners : (((g.plan key).1.pairs.filter (g.Spreads ·)).map (·.partner)).Nodup := by
    refine (hnd.filter _).map_on fun pair hp other ho heq => ?_
    exact (eq_of_partner_mem_cells hwell (hmem.mp ho).1 (hmem.mp hp).1
      (Pair.mem_cells.mpr (.inr heq))).1
  have hdisjoint : g.replicators.Disjoint
      (((g.plan key).1.pairs.filter (g.Spreads ·)).map (·.partner)) := by
    intro i hold hnew
    obtain ⟨pair, hp, rfl⟩ := List.mem_map.mp hnew
    have htape := (hmem.mp hp).2.2
    rw [mem_replicators.mp hold, Option.some_inj] at htape
    exact blank_ne_replicatorTape htape.symm
  refine (List.perm_ext_iff_of_nodup (nodup_replicators _)
    ((nodup_replicators g).append hpartners hdisjoint)).mpr fun i => ?_
  rw [mem_replicators, tapeAt?_stepWith_eq_replicator_iff hg, List.mem_append, mem_replicators]
  simp only [List.mem_map, hmem, and_assoc, and_comm (a := Pair.partner _ = i)]

/-- Nobody loses the replicator in an epoch. -/
theorem replicators_subset_stepWith (key : UInt64) :
    g.replicators ⊆ (g.stepWith key).1.replicators :=
  fun _ hi => (perm_replicators_stepWith hg key).mem_iff.mpr (List.mem_append_left _ hi)

/-- **An epoch adds as many replicators as there are replicators with a blank partner.** -/
theorem length_replicators_stepWith (key : UInt64) :
    (g.stepWith key).1.replicators.length =
      g.replicators.length + (g.plan key).1.pairs.countP (g.Spreads ·) := by
  rw [(perm_replicators_stepWith hg key).length_eq, List.length_append, List.length_map,
    List.countP_eq_length_filter]

end Epoch

/-! ## Any number of epochs -/

/-- **Soups of replicators stay soups of replicators, and only grow.**  Let every tape be blank or
the replicator, let nothing mutate and let twenty-one steps or more be allowed.  Whatever locks,
streams, radius and entropy there are, after any number of epochs every tape is blank or the
replicator, nobody who held it has lost it, and whatever the key of the next epoch is, in that epoch
nobody loses it and it gets to as many cells more as there are planned pairs whose initiator holds
it and whose partner is blank. -/
theorem replicators_compute (hg : g.IsReplicatorSoup) (entropy : Nat → UInt64) (k : Nat) :
    let soup := (g.compute entropy k).1
    soup.IsReplicatorSoup ∧ g.replicators ⊆ soup.replicators ∧
      (∀ key, (soup.stepWith key).1.IsReplicatorSoup ∧
        soup.replicators ⊆ (soup.stepWith key).1.replicators ∧
        (soup.stepWith key).1.replicators.length =
          soup.replicators.length + (soup.plan key).1.pairs.countP (soup.Spreads ·)) ∧
      (g.compute entropy (k + 1)).1 = (soup.stepWith (soup.key (entropy k))).1 := by
  intro soup
  have hsoup : soup.IsReplicatorSoup ∧ g.replicators ⊆ soup.replicators := by
    induction k with
    | zero => exact ⟨hg, List.Subset.refl _⟩
    | succ k ih =>
      obtain ⟨hbefore, hsubset⟩ := ih
      have hstep : soup = ((g.compute entropy k).1.step (entropy k)).1 := compute_succ entropy k g
      rw [hstep]
      exact ⟨hbefore.stepWith _, List.Subset.trans hsubset (replicators_subset_stepWith hbefore _)⟩
  exact ⟨hsoup.1, hsoup.2, fun key => ⟨hsoup.1.stepWith key,
    replicators_subset_stepWith hsoup.1 key, length_replicators_stepWith hsoup.1 key⟩,
    compute_succ entropy k g⟩

/-- Four cells on a torus smaller than its own window: one replicator, one stale lock, and no more
steps than it takes. -/
def colony : Grid where
  params := { seed := 7, fixedShuffle := false, maxSteps := 21, maxDist := 1, rate := ⟨0⟩
              width := 2, height := 2 }
  epoch := 0xffffffff
  cells := #[⟨false, Program.replicatorTape, ⟨1⟩⟩, ⟨false, Tape.blank, ⟨2⟩⟩,
    ⟨true, Tape.blank, ⟨3⟩⟩, ⟨false, Tape.blank, ⟨4⟩⟩]

/-- Under one key the only replicator of this soup gets a blank partner. -/
theorem replicators_compute_colony :
    colony.IsReplicatorSoup ∧ colony.replicators = [0] ∧ (colony.plan 0).1.pairs = [⟨0, 3⟩] ∧
      colony.Spreads ⟨0, 3⟩ ∧ (colony.stepWith 0).1.replicators.length = 2 ∧
      [0] ⊆ (colony.compute (fun _ => 5) 3).1.replicators := by
  have hcolony : colony.IsReplicatorSoup :=
    { wellFormed := ⟨(Params.fault?_eq_none_iff _).mp (by decide), rfl⟩
      tapes := by
        simp only [colony, List.mem_toArray, List.forall_mem_cons]
        exact ⟨.inr rfl, .inl rfl, .inl rfl, .inl rfl, nofun⟩
      rate := by decide
      maxSteps := by decide }
  have hpairs : (colony.plan 0).1.pairs = [⟨0, 3⟩] := by cbv
  have hbefore : colony.replicators = [0] := by decide +kernel
  have hspreads : colony.Spreads ⟨0, 3⟩ := ⟨rfl, rfl⟩
  refine ⟨hcolony, hbefore, hpairs, hspreads, ?_, ?_⟩
  · have hgrows : (colony.stepWith 0).1.replicators.length =
        colony.replicators.length + (colony.plan 0).1.pairs.countP (colony.Spreads ·) :=
      ((replicators_compute hcolony (fun _ => 5) 0).2.2.1 0).2.2
    rw [hgrows, hbefore, hpairs, List.countP_singleton, if_pos (decide_eq_true hspreads)]
    rfl
  · exact hbefore ▸ (replicators_compute hcolony (fun _ => 5) 3).2.1

end Grid

end TapeLife
