import TapeLife.Proofs.Grid.Draws
import TapeLife.Proofs.Grid.Influence

/-!
# Proofs/Grid/Privacy — a random stream is its cell's own

    j alone, or a partner        in the next epoch only j can differ
    j the initiator              only j and the tape of its partner

Take two soups that are the same but for the random stream of one cell (`DifferInStream`).  They get
one plan, since planning does not look at streams (`DifferInStream.alike`).  A run uses the stream
of its driver and never that of the partner (`Cell.fst_liveBeside_congr`), and mutations use every
cell's own, so the difference reaches another cell only through the program of an initiator
(`getElem?_stepWith_eq`), and no other stream at all (`differ_stepWith`).
-/

namespace TapeLife

/-- A rate within its bounds is the same number as itself. -/
theorem Single.same_self {rate : Single} (h : rate.isFraction = true) : rate.same rate = true := by
  rw [isFraction] at h
  rw [same]
  split at h
  · rename_i hvalue
    split <;> simp_all
  · cases h

namespace Cell

/-- **What becomes of an initiator does not depend on the partner's stream.** -/
theorem fst_liveBeside_congr (dose : Dose) (a : Cell) {b b' : Cell} (h : b.tape = b'.tape) :
    (a.liveBeside dose b).1.1 = (a.liveBeside dose b').1.1 := by
  simp only [liveBeside, h]

end Cell

namespace Grid

variable {g h : Grid} {i j : Nat}

/-- Two soups that are the same but for the random stream of one cell. -/
structure DifferInStream (g h : Grid) (j : Nat) : Prop where
  params : g.params = h.params
  epoch : g.epoch = h.epoch
  cells_of_ne : ∀ i, i ≠ j → g.cells[i]? = h.cells[i]?
  cell_self : (g.cells[j]?.map fun cell => (cell.locked, cell.tape))
    = h.cells[j]?.map fun cell => (cell.locked, cell.tape)

namespace DifferInStream

variable (hgh : DifferInStream g h j)
include hgh

/-- Whatever does not look at streams is the same of every cell. -/
theorem map_cell {α : Type} (f : Bool × Tape → α) (i : Nat) :
    (g.cells[i]?.map fun cell => f (cell.locked, cell.tape))
      = h.cells[i]?.map fun cell => f (cell.locked, cell.tape) := by
  by_cases hi : i = j
  · have hself := congrArg (Option.map f) hgh.cell_self
    rwa [Option.map_map, Option.map_map, ← hi] at hself
  · rw [hgh.cells_of_ne i hi]

/-- **Pairing cannot tell the two soups apart.** -/
theorem alike (hg : g.WellFormed) (hh : h.WellFormed) (hfix : g.params.fixedShuffle = true) :
    Alike g h where
  wellFormed := ⟨hg, hh⟩
  fixedShuffle := ⟨hfix, hgh.params ▸ hfix⟩
  width := by rw [hgh.params]
  height := by rw [hgh.params]
  maxDist := by rw [hgh.params]
  maxSteps := by rw [hgh.params]
  rate := hgh.params ▸ Single.same_self hg.valid.rate_isFraction
  epoch := hgh.epoch
  locks := by
    refine Array.ext_getElem? fun i => ?_
    rw [getElem?_locks, getElem?_locks]
    exact hgh.map_cell Prod.fst i

end DifferInStream

section Epoch

variable (halike : Alike g h) (hgh : DifferInStream g h j) (key : UInt64)
include halike hgh

/-- **The difference reaches another cell only from its initiator.** -/
theorem getElem?_stepWith_eq (hi : i ≠ j)
    (hfree : ∀ pair ∈ (g.plan key).1.formed, pair.initiator = j → pair.partner ≠ i) :
    (g.stepWith key).1.cells[i]? = (h.stepWith key).1.cells[i]? := by
  obtain ⟨hg, hh⟩ := halike.wellFormed
  have hplan := halike.plan key
  obtain ⟨pair, hp, rfl⟩ | ⟨pair, hp, rfl⟩ | hno := membersOf_cases (g.plan key).1.formed i
  · obtain ⟨a, b, ha, hb, ha', -⟩ := cells_of_mem_plan hg hp
    obtain ⟨c, d, hc, hd, hc', -⟩ := cells_of_mem_plan hh (hplan ▸ hp)
    obtain rfl : a = c := Option.some.inj (ha.symm.trans ((hgh.cells_of_ne _ hi).trans hc))
    have htape : b.tape = d.tape := by
      have hsame := hgh.map_cell Prod.snd pair.partner
      rw [hb, hd] at hsame
      exact Option.some.inj hsame
    rw [ha', hc', ← halike.dose, Cell.fst_liveBeside_congr _ _ htape]
  · obtain ⟨a, b, ha, hb, -, hb'⟩ := cells_of_mem_plan hg hp
    obtain ⟨c, d, hc, hd, -, hd'⟩ := cells_of_mem_plan hh (hplan ▸ hp)
    obtain rfl : b = d := Option.some.inj (hb.symm.trans ((hgh.cells_of_ne _ hi).trans hd))
    have hinitiator : pair.initiator ≠ j := fun heq => hfree pair hp heq rfl
    obtain rfl : a = c :=
      Option.some.inj (ha.symm.trans ((hgh.cells_of_ne _ hinitiator).trans hc))
    rw [hb', hd', ← halike.dose]
  · rw [getElem?_stepWith_of_notMem hg hno, getElem?_stepWith_of_notMem hh (hplan ▸ hno),
      ← halike.dose, hgh.cells_of_ne i hi]

end Epoch

/-- **A random stream is its cell's own.**  Take two soups with a fixed shuffle that are the same
but for the random stream of one cell, and compute an epoch of both.  They have one plan.  If the
cell is not the initiator of a pair, every other cell is the same afterwards; if it is, every cell
but itself and its partner is, and the partner's stream is.  And where it is the partner, the
initiator is the same with its tape, its stream and its lock. -/
theorem differ_stepWith (hg : g.WellFormed) (hh : h.WellFormed)
    (hfix : g.params.fixedShuffle = true) (hgh : DifferInStream g h j) (entropy entropy' : UInt64) :
    let plan := (g.plan (g.key entropy)).1
    let first := (g.step entropy).1
    let second := (h.step entropy').1
    (h.plan (h.key entropy')).1 = plan ∧
      ((∀ pair ∈ plan.pairs, pair.initiator ≠ j) →
        ∀ i, i ≠ j → first.cells[i]? = second.cells[i]?) ∧
      (∀ pair ∈ plan.pairs, pair.initiator = j →
        (∀ i, i ≠ j → i ≠ pair.partner → first.cells[i]? = second.cells[i]?) ∧
          first.streamAt? pair.partner = second.streamAt? pair.partner) ∧
      ∀ pair ∈ plan.pairs, pair.partner = j →
        first.cells[pair.initiator]? = second.cells[pair.initiator]? := by
  intro plan first second
  have halike := hgh.alike hg hh hfix
  have hkey : h.key entropy' = g.key entropy := (halike.key entropy entropy').symm
  have hplan : (h.plan (h.key entropy')).1 = plan := by rw [hkey, ← halike.plan]
  have hsecond : second = (h.stepWith (g.key entropy)).1 := by rw [← hkey]; rfl
  have hnd := nodup_members_plan hg (g.key entropy)
  have hformed : ∀ {pair}, pair ∈ plan.pairs ↔ pair ∈ plan.formed := (Plan.perm_pairs plan).mem_iff
  refine ⟨hplan, fun hnone i hi => ?_, ?_, ?_⟩
  · rw [hsecond]
    exact getElem?_stepWith_eq halike hgh _ hi fun pair hp heq =>
      absurd heq (hnone pair (hformed.mpr hp))
  · rintro pair hp rfl
    have hp := hformed.mp hp
    refine ⟨fun i hi hne => ?_, ?_⟩
    · rw [hsecond]
      refine getElem?_stepWith_eq halike hgh _ hi fun other ho heq hpartner => ?_
      have hsame : other = pair := eq_of_mem_cells hnd ho hp (heq ▸ other.initiator_mem_cells)
        pair.initiator_mem_cells
      exact hne (hsame ▸ hpartner.symm)
    · have hne := partner_ne_initiator hnd hp
      have hstream : g.streamAt? pair.partner = h.streamAt? pair.partner :=
        congrArg (Option.map _) (hgh.cells_of_ne _ hne)
      rw [hsecond, streamAt?_partner hh (halike.plan _ ▸ hp), ← hstream]
      exact streamAt?_partner hg hp
  · rintro pair hp rfl
    have hp := hformed.mp hp
    have hne := partner_ne_initiator hnd hp
    rw [hsecond]
    refine getElem?_stepWith_eq halike hgh _ hne.symm fun other ho heq _ => ?_
    have hsame : other = pair := eq_of_mem_cells hnd ho hp (heq ▸ other.initiator_mem_cells)
      pair.partner_mem_cells
    exact hne (hsame ▸ heq).symm

/-- Four cells, the first of which draws a byte and writes it onto the tape of its partner. -/
def gossip (stream : Stream) : Grid where
  params := { seed := 7, fixedShuffle := true, maxSteps := 9, maxDist := 1, rate := ⟨0⟩
              width := 2, height := 2 }
  epoch := 1
  cells := #[⟨false, Tape.ofBytes [0x3f, 0x29, 0x2e, 0x21], stream⟩, ⟨false, Tape.blank, ⟨2⟩⟩,
    ⟨true, Tape.blank, ⟨3⟩⟩, ⟨false, Tape.blank, ⟨4⟩⟩]

/-- What the first cell of this soup draws is seen on the tape of its partner, and nowhere else. -/
theorem differ_stepWith_gossip :
    let g := gossip ⟨0x0123456789abcdef⟩
    let h := gossip ⟨0xfedcba9876543210⟩
    let first := (g.step 0).1
    let second := (h.step 9).1
    (g.WellFormed ∧ h.WellFormed ∧ DifferInStream g h 0) ∧
      (g.plan (g.key 0)).1.pairs = [⟨0, 1⟩] ∧
      first.cells[1]? ≠ second.cells[1]? ∧
      first.streamAt? 1 = second.streamAt? 1 ∧ first.cells[2]? = second.cells[2]? ∧
      first.cells[3]? = second.cells[3]? := by
  intro g h first second
  have hvalid : (gossip ⟨0⟩).params.fault? = none := by decide
  have hwell : ∀ stream, (gossip stream).WellFormed := fun _ =>
    ⟨(Params.fault?_eq_none_iff _).mp hvalid, rfl⟩
  have hgh : DifferInStream g h 0 :=
    { params := rfl
      epoch := rfl
      cells_of_ne := fun i hi => by
        obtain ⟨i, rfl⟩ := Nat.exists_eq_succ_of_ne_zero hi
        rfl
      cell_self := rfl }
  have hpairs : (g.plan (g.key 0)).1.pairs = [⟨0, 1⟩] := by cbv
  have hbyte : (first.cells[1]?.map fun cell => cell.tape[0])
      ≠ second.cells[1]?.map fun cell => cell.tape[0] := by decide +kernel
  obtain ⟨-, -, hinitiator, -⟩ := differ_stepWith (hwell _) (hwell _) rfl hgh 0 9
  obtain ⟨hothers, hstream⟩ := hinitiator ⟨0, 1⟩ (hpairs ▸ List.mem_singleton_self _) rfl
  exact ⟨⟨hwell _, hwell _, hgh⟩, hpairs, fun h => hbyte (congrArg (Option.map _) h), hstream,
    hothers 2 (by decide) (by decide), hothers 3 (by decide) (by decide)⟩

end Grid

end TapeLife
