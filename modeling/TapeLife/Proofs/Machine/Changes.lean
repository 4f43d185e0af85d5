import Mathlib.InformationTheory.Hamming
import TapeLife.Proofs.Machine.Draws
import TapeLife.Proofs.Machine.Tallies

/-!
# Proofs/Machine/Changes — a tally bounds what its run has changed

    changed bytes of the neighbour ≤ neighbour writes
    changed bytes of its own + neighbour writes + draws ≤ ops

An instruction changes no byte but the one it writes (`Rule.get_eq`), so every byte that is different
after a run has been the target of an instruction of its trace (`Runs.exists_target`), and of two
tapes that share a machine each has at most as many changed bytes as it was written to
(`Runs.hammingDist_le`).  A budget that is not spent is left by a machine that stopped, and there are
three ways to stop (`StopsBy`, `stopsBy_of_rule`).
-/

namespace TapeLife

variable {n : Nat}

namespace Machine

variable {m m₁ m' : Machine n} {trace : List (Machine n)} {why : Option Stop} {stop : Stop}
  {i : Fin n}

/-! ## What is changed -/

theorem GoesOn.memory_eq (h : GoesOn m i m' why) : m'.memory = m.memory := by
  cases h <;> rfl

theorem get_write_of_ne {j : Fin n} (h : j ≠ i) (byte : UInt8) :
    (m.write j byte).memory.get i = m.memory.get i :=
  Vector.getElem_set_ne j.isLt i.isLt fun heq => h (Fin.ext heq)

theorem Acts.get_eq (h : Acts m m₁) (hi : m.target ≠ some i) :
    m₁.memory.get i = m.memory.get i := by
  have hother : ∀ op {symbol j}, Instruction.symbol? op = some symbol → m.Reads symbol →
      (m.instruction = op → m.target = some j) → j ≠ i := by
    rintro op symbol j hsymbol hread htarget rfl
    exact hi (htarget ((reads_iff op hsymbol).mp hread))
  cases h with
  | increment hread =>
    exact get_write_of_ne (hother .increment rfl hread fun hop => by rw [target, hop]) _
  | decrement hread =>
    exact get_write_of_ne (hother .decrement rfl hread fun hop => by rw [target, hop]) _
  | copyOut hread =>
    exact get_write_of_ne (hother .copyOut rfl hread fun hop => by rw [target, hop]) _
  | copyIn hread =>
    exact get_write_of_ne (hother .copyIn rfl hread fun hop => by rw [target, hop]) _
  | store hread =>
    exact get_write_of_ne (hother .store rfl hread fun hop => by rw [target, hop]) _
  | _ => rfl

/-- **An instruction changes no byte but its target.** -/
theorem Rule.get_eq (h : Rule m m' why) (hi : m.target ≠ some i) :
    m'.memory.get i = m.memory.get i := by
  cases h with
  | act hacts hgo => exact (congrArg (·.get i) hgo.memory_eq).trans (hacts.get_eq hi)
  | enter _ _ hgo | skip _ _ _ hgo | leave _ _ hgo | again _ _ _ hgo =>
    exact congrArg (·.get i) hgo.memory_eq
  | halt | skipNowhere | againNowhere => rfl

/-- **What a run has changed, one of its instructions has written.** -/
theorem Runs.exists_target (h : Runs trace m m' why)
    (hi : m'.memory.get i ≠ m.memory.get i) : ∃ x ∈ trace, x.target = some i := by
  induction h with
  | rest => exact absurd rfl hi
  | @more trace m m₁ m' why hrule _ ih =>
    by_cases htarget : m.target = some i
    · exact ⟨m, List.mem_cons_self, htarget⟩
    · rw [← hrule.get_eq htarget] at hi
      obtain ⟨x, hx, hxi⟩ := ih hi
      exact ⟨x, List.mem_cons_of_mem m hx, hxi⟩
  | @stop m m' why hrule =>
    by_cases htarget : m.target = some i
    · exact ⟨m, List.mem_cons_self, htarget⟩
    · exact absurd (hrule.get_eq htarget) hi

/-- **A part of the tape has at most as many changed bytes as were written there.** -/
theorem Runs.hammingDist_le (h : Runs trace m m' why) {size : Nat} {place : Fin size → Fin n}
    (hplace : Function.Injective place) (written : Machine n → Prop) [DecidablePred written]
    (hwritten : ∀ x : Machine n, ∀ k, x.target = some (place k) → written x) :
    hammingDist (fun k => m.memory.get (place k)) (fun k => m'.memory.get (place k))
      ≤ trace.countP (written ·) := by
  have hcount : ((trace.filter (written ·)).filterMap target).toFinset.card
      ≤ trace.countP (written ·) := by
    rw [List.countP_eq_length_filter]
    exact (List.toFinset_card_le _).trans (List.length_filterMap_le _ _)
  refine (Finset.card_le_card_of_injOn place (fun k hk => ?_) hplace.injOn).trans hcount
  obtain ⟨x, hx, hxk⟩ := h.exists_target (Ne.symm (Finset.mem_filter.mp hk).2)
  rw [Finset.mem_coe, List.mem_toFinset, List.mem_filterMap]
  exact ⟨x, List.mem_filter.mpr ⟨hx, decide_eq_true (hwritten x k hxk)⟩, hxk⟩

/-! ## Why a run stops -/

/-- A bracket is next, and the jump to its partner is taken. -/
def TakesJump (m : Machine n) : Prop := m.Reads '[' ∧ m.datum = 0 ∨ m.Reads ']' ∧ m.datum ≠ 0

/-- The next instruction is the last. -/
inductive StopsBy (m : Machine n) : Stop → Prop
  /-- It is the halt instruction. -/
  | halt : m.Reads '!' → StopsBy m .halted
  /-- It is a jump forward, and nothing closes the bracket. -/
  | skipNowhere : m.Reads '[' → m.datum = 0 → (∀ c, ¬ Partners m.memory m.place c) →
      StopsBy m .unmatched
  /-- It is a jump back, and nothing opens the bracket. -/
  | againNowhere : m.Reads ']' → m.datum ≠ 0 → (∀ o, ¬ Partners m.memory o m.place) →
      StopsBy m .unmatched
  /-- It is on the last byte of the tape, and does not jump. -/
  | lastByte : m.place.val + 1 = n → ¬ m.TakesJump → ¬ m.Reads '!' → StopsBy m .ranOff
  /-- It is a jump to the last byte of the tape. -/
  | skipToLast {c : Fin n} : m.Reads '[' → m.datum = 0 → Partners m.memory m.place c →
      c.val + 1 = n → StopsBy m .ranOff

/-- The machine takes so many steps, and the last of them stops it. -/
def Stops (m : Machine n) (steps : Nat) (stop : Stop) : Prop :=
  ∃ trace last, Runs trace m last none ∧ trace.length + 1 = steps ∧ last.StopsBy stop

theorem GoesOn.eq_ranOff (h : GoesOn m i m' (some stop)) : i.val + 1 = n ∧ stop = .ranOff := by
  cases h with
  | ranOff hend => exact ⟨hend, rfl⟩

theorem Reads.not_reads {a b : Char} (h : m.Reads a) (hne : a.toUInt8 ≠ b.toUInt8) :
    ¬ m.Reads b := fun hb => hne (h.symm.trans hb)

/-- What neither stops nor jumps is no bracket and does not halt. -/
theorem Acts.not_reads (h : Acts m m₁) : ¬ m.TakesJump ∧ ¬ m.Reads '!' := by
  have hother : ∀ symbol, m.Reads symbol → symbol.toUInt8 ≠ '['.toUInt8 →
      symbol.toUInt8 ≠ ']'.toUInt8 → symbol.toUInt8 ≠ '!'.toUInt8 →
      ¬ m.TakesJump ∧ ¬ m.Reads '!' := fun symbol hread hopen hclose hhalt =>
    ⟨fun hjump => hjump.elim (fun h => hread.not_reads hopen h.1)
      (fun h => hread.not_reads hclose h.1), hread.not_reads hhalt⟩
  cases h with
  | idle hnone =>
    exact ⟨fun hjump => hjump.elim (fun h => hnone _ (by decide) h.1)
      (fun h => hnone _ (by decide) h.1), hnone _ (by decide)⟩
  | head0Left hread | head0Right hread | head1Left hread | head1Right hread | increment hread
  | decrement hread | copyOut hread | copyIn hread | load hread | store hread | random hread =>
    exact hother _ hread (by decide) (by decide) (by decide)

/-- **There are three ways to stop.** -/
theorem stopsBy_of_rule (h : Rule m m' (some stop)) : m.StopsBy stop := by
  cases h with
  | act hacts hgo =>
    obtain ⟨hend, rfl⟩ := hgo.eq_ranOff
    exact .lastByte hend hacts.not_reads.1 hacts.not_reads.2
  | halt hread => exact .halt hread
  | enter hread hdatum hgo =>
    obtain ⟨hend, rfl⟩ := hgo.eq_ranOff
    exact .lastByte hend (fun hjump => hjump.elim (fun h => hdatum h.2)
      fun h => hread.not_reads (by decide) h.1) (hread.not_reads (by decide))
  | skip hread hdatum hpartners hgo =>
    obtain ⟨hend, rfl⟩ := hgo.eq_ranOff
    exact .skipToLast hread hdatum hpartners hend
  | skipNowhere hread hdatum hnone => exact .skipNowhere hread hdatum hnone
  | leave hread hdatum hgo =>
    obtain ⟨hend, rfl⟩ := hgo.eq_ranOff
    exact .lastByte hend (fun hjump => hjump.elim (fun h => hread.not_reads (by decide) h.1)
      fun h => h.2 hdatum) (hread.not_reads (by decide))
  | again _ _ hpartners hgo =>
    -- the partner of a closing bracket is on its left
    have hlt := hpartners.lt
    have hend := hgo.eq_ranOff.1
    have hplace := m.place.isLt
    omega
  | againNowhere hread hdatum hnone => exact .againNowhere hread hdatum hnone

theorem Rule.reads_halt_iff (h : Rule m m' why) : m.Reads '!' ↔ why = some .halted := by
  constructor
  · exact fun hread => (h.unique (.halt hread)).2
  · rintro rfl
    cases stopsBy_of_rule h with
    | halt hread => exact hread

/-- A run that stops has a last instruction, and all before it go on. -/
theorem Runs.exists_last (h : Runs trace m m' (some stop)) :
    ∃ before last, trace = before ++ [last] ∧ Runs before m last none ∧
      Rule last m' (some stop) := by
  generalize hwhy : some stop = why at h
  induction h with
  | rest => cases hwhy
  | more hrule _ ih =>
    obtain ⟨before, last, rfl, hruns, hlast⟩ := ih hwhy
    exact ⟨_ :: before, last, rfl, .more hrule hruns, hlast⟩
  | stop hrule =>
    cases hwhy
    exact ⟨[], _, rfl, .rest, hrule⟩

/-- What goes on has not halted. -/
theorem Runs.not_reads_halt (h : Runs trace m m' none) : ∀ x ∈ trace, ¬ x.Reads '!' := by
  generalize hwhy : none = why at h
  induction h with
  | rest => simp
  | more hrule _ ih =>
    rw [List.forall_mem_cons]
    exact ⟨hrule.reads_halt_iff.not.mpr (by simp), ih hwhy⟩
  | stop => cases hwhy

/-- **A budget is left only by a machine that stopped**, and the tally says if it halted. -/
theorem stops_of_steps_lt {budget : Nat} (h : (m.run budget).tally.steps < budget) :
    ∃ stop, m.Stops (m.run budget).tally.steps stop ∧
      ((m.run budget).tally.halted = true ↔ stop = .halted) := by
  obtain ⟨trace, hruns, htally, hspent, -⟩ := runFrom_runs budget m {}
  rw [← run, foldl_count] at htally
  simp only [htally, Nat.zero_add, Bool.false_or] at h ⊢
  cases hstop : (m.runFrom budget {}).stop with
  | none => exact absurd (hspent hstop) (Nat.ne_of_lt h)
  | some stop =>
    rw [hstop] at hruns
    obtain ⟨before, last, rfl, hbefore, hlast⟩ := hruns.exists_last
    refine ⟨stop, ⟨before, last, hbefore, by simp, stopsBy_of_rule hlast⟩, ?_⟩
    rw [List.any_append, List.any_eq_false.mpr (by simpa using hbefore.not_reads_halt)]
    simpa using hlast.reads_halt_iff

/-! ## Two tapes on one machine -/

/-- A tape that stands on a memory from some place on has different places for its bytes. -/
theorem injective_of_val_eq {place : Fin tapeSize → Fin n} {start : Nat}
    (hplace : ∀ k, (place k).val = start + k.val) : Function.Injective place := fun k₁ k₂ h =>
  Fin.ext (Nat.add_left_cancel ((hplace k₁).symm.trans ((congrArg Fin.val h).trans (hplace k₂))))

/-- The first tape has as many changed bytes at most as there are operations left when those are
taken away that wrote to the neighbour or drew. -/
theorem hammingDist_own_le (budget : Nat) (m : Machine n) {place : Fin tapeSize → Fin n}
    (hplace : ∀ k, (place k).val = k.val) :
    hammingDist (fun k => m.memory.get (place k))
        (fun k => (m.run budget).machine.memory.get (place k))
      + (m.run budget).tally.channelWrites + (m.run budget).tally.randomDraws
      ≤ (m.run budget).tally.ops := by
  obtain ⟨trace, hexec, htally⟩ := executes_run budget m
  obtain ⟨why, hruns⟩ := hexec.runs
  have hinjective := injective_of_val_eq fun k => (hplace k).trans (Nat.zero_add _).symm
  have hchanged := hruns.hammingDist_le hinjective (·.WritesOwn) fun x k hx =>
    ⟨place k, hx, hplace k ▸ k.isLt⟩
  have hcounts := countP_writes_add_draws_le trace
  rw [htally, Tally.ofTrace]
  dsimp only
  omega

/-- The second tape has at most as many changed bytes as the neighbour was written to. -/
theorem hammingDist_neighbour_le (budget : Nat) (m : Machine n) {place : Fin tapeSize → Fin n}
    (hplace : ∀ k, (place k).val = tapeSize + k.val) :
    hammingDist (fun k => m.memory.get (place k))
        (fun k => (m.run budget).machine.memory.get (place k))
      ≤ (m.run budget).tally.channelWrites := by
  obtain ⟨trace, hexec, htally⟩ := executes_run budget m
  obtain ⟨why, hruns⟩ := hexec.runs
  rw [htally]
  refine hruns.hammingDist_le (injective_of_val_eq hplace) (·.WritesNeighbour) fun x k hx =>
    any_target_iff.mp ?_
  rw [hx, Option.any_some, decide_eq_true_eq, hplace]
  exact Nat.le_add_right _ _

end Machine

/-! ## Runs of cells -/

/-- A tally says what the run of a cell has done: how it used its budget, how much of the cell's own
tape it may have changed, what it drew, and how it ended if a part of the budget was left. -/
structure Tally.Explains (t : Tally) (budget : Nat) (start : Machine n) (cell cell' : Cell) : Prop
    extends t.Bounded budget where
  changed_le : hammingDist cell.tape.get cell'.tape.get + t.channelWrites + t.randomDraws ≤ t.ops
  stream_eq : cell'.stream = cell.stream.advance t.randomDraws
  stops : t.steps < budget →
    ∃ stop, start.Stops t.steps stop ∧ (t.halted = true ↔ stop = .halted)

namespace Cell

variable (budget : Nat) (cell : Cell) (neighbour : Tape)

theorem explains_runAlone :
    (cell.runAlone budget).2.Explains budget cell.machineAlone cell (cell.runAlone budget).1 :=
  { cell.bounded_runAlone budget with
    changed_le := Machine.hammingDist_own_le budget cell.machineAlone fun _ => rfl
    stream_eq := cell.stream_runAlone budget
    stops := Machine.stops_of_steps_lt }

theorem explains_runBeside :
    (cell.runBeside budget neighbour).2.2.Explains budget (cell.machineBeside neighbour) cell
      (cell.runBeside budget neighbour).1 :=
  { cell.bounded_runBeside budget neighbour with
    changed_le := by
      have hbefore : cell.tape.get =
          fun k => (cell.machineBeside neighbour).memory.get (Fin.castAdd tapeSize k) :=
        funext fun k =>
          (congrArg (·.get k) (JoinedTape.own_append cell.tape neighbour)).symm.trans
            (JoinedTape.get_own _ k)
      have hafter : (cell.runBeside budget neighbour).1.tape.get =
          fun k => ((cell.machineBeside neighbour).run budget).machine.memory.get
            (Fin.castAdd tapeSize k) := funext fun k => JoinedTape.get_own _ k
      rw [hbefore, hafter]
      exact Machine.hammingDist_own_le budget _ fun _ => rfl
    stream_eq := cell.stream_runBeside budget neighbour
    stops := Machine.stops_of_steps_lt }

theorem hammingDist_runBeside_le :
    hammingDist neighbour.get (cell.runBeside budget neighbour).2.1.get
      ≤ (cell.runBeside budget neighbour).2.2.channelWrites := by
  have hbefore : neighbour.get =
      fun k => (cell.machineBeside neighbour).memory.get (Fin.natAdd tapeSize k) :=
    funext fun k =>
      (congrArg (·.get k) (JoinedTape.neighbour_append cell.tape neighbour)).symm.trans
        (JoinedTape.get_neighbour _ k)
  have hafter : (cell.runBeside budget neighbour).2.1.get =
      fun k => ((cell.machineBeside neighbour).run budget).machine.memory.get
        (Fin.natAdd tapeSize k) := funext fun k => JoinedTape.get_neighbour _ k
  rw [hbefore, hafter]
  exact Machine.hammingDist_neighbour_le budget _ fun _ => rfl

/-- **A tally says what its run can have changed.**  Alone a cell writes to nobody; beside a
neighbour it has changed at most as many bytes there as it has written, so none without a write. -/
theorem tally_explains :
    ((cell.runAlone budget).2.Explains budget cell.machineAlone cell (cell.runAlone budget).1 ∧
      (cell.runAlone budget).2.channelWrites = 0) ∧
    (cell.runBeside budget neighbour).2.2.Explains budget (cell.machineBeside neighbour) cell
        (cell.runBeside budget neighbour).1 ∧
      hammingDist neighbour.get (cell.runBeside budget neighbour).2.1.get
        ≤ (cell.runBeside budget neighbour).2.2.channelWrites ∧
      ((cell.runBeside budget neighbour).2.2.channelWrites = 0 →
        (cell.runBeside budget neighbour).2.1 = neighbour) := by
  have hneighbour := hammingDist_runBeside_le budget cell neighbour
  refine ⟨⟨explains_runAlone budget cell, channelWrites_runAlone budget cell⟩,
    explains_runBeside budget cell neighbour, hneighbour, fun hnone => ?_⟩
  rw [hnone, Nat.le_zero, hammingDist_eq_zero] at hneighbour
  exact Vector.ext fun i hi => (congrFun hneighbour ⟨i, hi⟩).symm

/-- A cell that adds one to its first byte, draws, writes that byte to the neighbour, and comes to a
bracket that nothing opens. -/
def scribbler : Cell :=
  ⟨false, Tape.ofBytes (['+', '?', '}', '.', ']'].map Char.toUInt8), ⟨1⟩⟩

/-- Five steps of a hundred are taken, and not because of a halt. -/
theorem tally_explains_scribbler :
    (scribbler.runBeside 100 Tape.blank).2.2 =
        { steps := 5, ops := 5, channelWrites := 1, randomDraws := 1 } ∧
      hammingDist scribbler.tape.get (scribbler.runBeside 100 Tape.blank).1.tape.get ≤ 3 ∧
      hammingDist Tape.blank.get (scribbler.runBeside 100 Tape.blank).2.1.get ≤ 1 ∧
      ∃ stop, (scribbler.machineBeside Tape.blank).Stops 5 stop ∧ stop ≠ .halted := by
  have htally : (scribbler.runBeside 100 Tape.blank).2.2 =
      { steps := 5, ops := 5, channelWrites := 1, randomDraws := 1 } := by decide +kernel
  obtain ⟨-, hexplains, hneighbour, -⟩ := tally_explains 100 scribbler Tape.blank
  have hown := hexplains.changed_le
  obtain ⟨stop, hstops, hhalted⟩ := hexplains.stops (by rw [htally]; decide)
  rw [htally] at hown hneighbour hstops hhalted
  dsimp only at hown
  exact ⟨htally, by omega, hneighbour, stop, hstops, by simpa using hhalted⟩

end Cell

end TapeLife
