import Mathlib.Data.ENat.Lattice
import TapeLife.Proofs.Machine.Rules

/-!
# Proofs/Machine/Language — running is executing the rules

    m ──rule──▸ m₁ ──rule──▸ m₂ ──rule──▸ …        budget 2:  trace [m, m₁]
                                                   lifetime:  steps until a rule stops, or ⊤

The rules leave no choice, so of two runs from one machine the longer goes on from the end of the
shorter, and not at all if that one stopped (`Runs.exists_rest`).  Running on a budget executes the
rules as often as the budget and the lifetime of the machine allow, and the tally is what the trace
did (`executes_run`).  **So a cell runs its tape by the rules**, alone or beside a neighbour, and a
longer budget only goes on (`Cell.implements_rules`).
-/

namespace TapeLife

variable {n : Nat}

namespace Machine

variable {m m₁ m₂ m' : Machine n} {trace trace₁ trace₂ : List (Machine n)}
  {why why₁ why₂ : Option Stop} {budget more : Nat}

/-! ## Runs -/

theorem Rule.unique (h₁ : Rule m m₁ why₁) (h₂ : Rule m m₂ why₂) : m₁ = m₂ ∧ why₁ = why₂ := by
  rw [rule_iff_step_eq] at h₁ h₂
  exact Prod.mk.inj (h₁.symm.trans h₂)

/-- **Of two runs the longer goes on from the end of the shorter**, and not at all if that one
stopped. -/
theorem Runs.exists_rest (h₁ : Runs trace₁ m m₁ why₁) (h₂ : Runs trace₂ m m₂ why₂)
    (hle : trace₁.length ≤ trace₂.length) :
    ∃ rest, trace₂ = trace₁ ++ rest ∧
      (why₁ = none ∧ Runs rest m₁ m₂ why₂ ∨ rest = [] ∧ m₁ = m₂ ∧ why₁ = why₂) := by
  induction h₁ generalizing trace₂ with
  | rest => exact ⟨trace₂, rfl, .inl ⟨rfl, h₂⟩⟩
  | more hrule hrest ih =>
    cases h₂ with
    | rest => simp at hle
    | more hrule₂ hrest₂ =>
      obtain ⟨rfl, -⟩ := hrule.unique hrule₂
      obtain ⟨rest, rfl, hends⟩ := ih hrest₂ (Nat.le_of_succ_le_succ hle)
      exact ⟨rest, rfl, hends⟩
    | stop hrule₂ => cases (hrule.unique hrule₂).2
  | stop hrule =>
    cases h₂ with
    | rest => simp at hle
    | more hrule₂ _ => cases (hrule.unique hrule₂).2
    | stop hrule₂ => exact ⟨[], rfl, .inr ⟨rfl, hrule.unique hrule₂⟩⟩

theorem Runs.isPrefixOf (h₁ : Runs trace₁ m m₁ why₁) (h₂ : Runs trace₂ m m₂ why₂)
    (hle : trace₁.length ≤ trace₂.length) : trace₁ <+: trace₂ := by
  obtain ⟨rest, hrest, -⟩ := h₁.exists_rest h₂ hle
  exact ⟨rest, hrest.symm⟩

/-- A trace has one end. -/
theorem Runs.unique (h₁ : Runs trace m m₁ why₁) (h₂ : Runs trace m m₂ why₂) :
    m₁ = m₂ ∧ why₁ = why₂ := by
  obtain ⟨rest, hrest, ⟨rfl, h⟩ | ⟨-, hends⟩⟩ := h₁.exists_rest h₂ (Nat.le_refl _)
  · obtain rfl : rest = [] := List.self_eq_append_right.mp hrest
    cases h
    exact ⟨rfl, rfl⟩
  · exact hends

/-- No run is longer than one that stopped. -/
theorem Runs.length_le_of_stop {stop : Stop} (h₁ : Runs trace₁ m m₁ why₁)
    (h₂ : Runs trace₂ m m₂ (some stop)) : trace₁.length ≤ trace₂.length := by
  rcases Nat.le_total trace₁.length trace₂.length with hle | hle
  · exact hle
  · obtain ⟨rest, rfl, ⟨h, -⟩ | ⟨rfl, -⟩⟩ := h₂.exists_rest h₁ hle
    · cases h
    · simp

/-! ## Lifetimes -/

/-- The steps that the rules take before the machine stops, `⊤` if it never does. -/
noncomputable def lifetime (m : Machine n) : ℕ∞ :=
  ⨅ (trace : List (Machine n)) (m' : Machine n) (why : Stop) (_ : Runs trace m m' (some why)),
    (trace.length : ℕ∞)

theorem Runs.length_le_lifetime (h : Runs trace m m' why) : (trace.length : ℕ∞) ≤ m.lifetime :=
  le_iInf fun _ => le_iInf fun _ => le_iInf fun _ => le_iInf fun hstop =>
    Nat.cast_le.mpr (h.length_le_of_stop hstop)

theorem Runs.lifetime_eq {stop : Stop} (h : Runs trace m m' (some stop)) :
    m.lifetime = trace.length :=
  le_antisymm (iInf_le_of_le trace (iInf_le_of_le m' (iInf_le_of_le stop (iInf_le _ h))))
    h.length_le_lifetime

/-- As many steps as the budget allows, or all of them if the machine stops before. -/
structure Executes (m : Machine n) (budget : Nat) (trace : List (Machine n)) (m' : Machine n) :
    Prop where
  runs : ∃ why, Runs trace m m' why
  length_eq : (trace.length : ℕ∞) = min (budget : ℕ∞) m.lifetime

theorem Executes.isPrefixOf (h₁ : m.Executes budget trace₁ m₁) (h₂ : m.Executes more trace₂ m₂)
    (hle : budget ≤ more) : trace₁ <+: trace₂ := by
  obtain ⟨why₁, hruns₁⟩ := h₁.runs
  obtain ⟨why₂, hruns₂⟩ := h₂.runs
  have hlength : (trace₁.length : ℕ∞) ≤ trace₂.length := by
    rw [h₁.length_eq, h₂.length_eq]
    exact min_le_min_right _ (Nat.cast_le.mpr hle)
  exact hruns₁.isPrefixOf hruns₂ (Nat.cast_le.mp hlength)

theorem Executes.unique (h₁ : m.Executes budget trace₁ m₁) (h₂ : m.Executes budget trace₂ m₂) :
    trace₁ = trace₂ ∧ m₁ = m₂ := by
  have hlength : (trace₁.length : ℕ∞) = trace₂.length := h₁.length_eq.trans h₂.length_eq.symm
  obtain rfl := (h₁.isPrefixOf h₂ le_rfl).eq_of_length (Nat.cast_inj.mp hlength)
  obtain ⟨why₁, hruns₁⟩ := h₁.runs
  obtain ⟨why₂, hruns₂⟩ := h₂.runs
  exact ⟨rfl, (hruns₁.unique hruns₂).1⟩

/-- What used no more than the budget is all that the budget allows. -/
theorem Executes.of_length_le (h : m.Executes more trace m') (hle : budget ≤ more)
    (hlength : trace.length ≤ budget) : m.Executes budget trace m' := by
  refine ⟨h.runs, le_antisymm (le_min (Nat.cast_le.mpr hlength) ?_) ?_⟩
  · rw [h.length_eq]
    exact min_le_right _ _
  · rw [h.length_eq]
    exact min_le_min_right _ (Nat.cast_le.mpr hle)

/-! ## Tallies -/

theorem any_target_iff :
    m.target.any (tapeSize ≤ ·.val) = true ↔ m.WritesNeighbour := by
  rw [WritesNeighbour, reads_iff .increment rfl, reads_iff .decrement rfl, reads_iff .copyIn rfl,
    reads_iff .store rfl, reads_iff .copyOut rfl, target]
  cases m.instruction <;> simp

/-- Counting an instruction adds what it did. -/
theorem count_eq (t : Tally) (m : Machine n) :
    t.count m =
      { steps := t.steps + 1
        ops := t.ops + if m.IsActive then 1 else 0
        skipped := t.skipped + if m.IsActive then 0 else 1
        halted := t.halted || m.Reads '!'
        channelWrites := t.channelWrites + if m.WritesNeighbour then 1 else 0
        randomDraws := t.randomDraws + if m.Reads '?' then 1 else 0 } := by
  simp only [Tally.count, any_target_iff, isActive_iff, reads_iff .halt rfl, reads_iff .random rfl,
    beq_eq_decide, ite_not]
  congr 1 <;> split_ifs <;> rfl

/-- Counting along a trace adds what the trace did. -/
theorem foldl_count (trace : List (Machine n)) (t : Tally) :
    trace.foldl Tally.count t =
      { steps := t.steps + trace.length
        ops := t.ops + trace.countP (·.IsActive)
        skipped := t.skipped + trace.countP (¬ ·.IsActive)
        halted := t.halted || trace.any (·.Reads '!')
        channelWrites := t.channelWrites + trace.countP (·.WritesNeighbour)
        randomDraws := t.randomDraws + trace.countP (·.Reads '?') } := by
  induction trace generalizing t with
  | nil => simp
  | cons m trace ih =>
    rw [List.foldl_cons, ih, count_eq]
    simp [List.countP_cons, Nat.add_assoc, Nat.add_comm, Bool.or_assoc]

/-! ## Running -/

/-- Running executes rules until the machine stops or the budget is spent. -/
theorem runFrom_runs (budget : Nat) (m : Machine n) (t : Tally) :
    ∃ trace, Runs trace m (m.runFrom budget t).machine (m.runFrom budget t).stop ∧
      (m.runFrom budget t).tally = trace.foldl Tally.count t ∧
      ((m.runFrom budget t).stop = none → trace.length = budget) ∧ trace.length ≤ budget := by
  induction budget generalizing m t with
  | zero => exact ⟨[], .rest, rfl, fun _ => rfl, Nat.le_refl _⟩
  | succ budget ih =>
    cases hstep : m.step with
    | mk m₁ why =>
      cases why with
      | none =>
        obtain ⟨trace, hruns, htally, hspent, hle⟩ := ih m₁ (t.count m)
        have hrun : m.runFrom (budget + 1) t = m₁.runFrom budget (t.count m) := by
          rw [runFrom, hstep]
        rw [hrun]
        refine ⟨m :: trace, .more (rule_iff_step_eq.mpr hstep) hruns, htally, fun hstop => ?_, ?_⟩
        · rw [List.length_cons, hspent hstop]
        · exact Nat.succ_le_succ hle
      | some stop =>
        have hrun : m.runFrom (budget + 1) t = ⟨m₁, t.count m, some stop⟩ := by
          rw [runFrom, hstep]
        rw [hrun]
        refine ⟨[m], .stop (rule_iff_step_eq.mpr hstep), rfl, nofun, ?_⟩
        simp

/-- **Running on a budget executes as many steps as the budget and the lifetime allow.** -/
theorem executes_run (budget : Nat) (m : Machine n) :
    ∃ trace, m.Executes budget trace (m.run budget).machine ∧
      (m.run budget).tally = .ofTrace trace := by
  obtain ⟨trace, hruns, htally, hspent, hle⟩ := runFrom_runs budget m {}
  refine ⟨trace, ⟨⟨_, hruns⟩, ?_⟩, ?_⟩
  · cases hstop : (m.runFrom budget {}).stop with
    | none =>
      have hlength := hspent hstop
      rw [hlength, eq_comm, min_eq_left_iff, ← hlength]
      exact hruns.length_le_lifetime
    | some stop =>
      rw [hstop] at hruns
      rw [hruns.lifetime_eq, eq_comm, min_eq_right_iff]
      exact Nat.cast_le.mpr hle
  · rw [run, htally, foldl_count]
    simp [Tally.ofTrace]

/-- `result` is what the rules make of a machine on a budget, told by `report` from the machine at
the end and the tally. -/
structure Implements {α : Type} (m : Machine n) (report : Machine n → Tally → α)
    (result : Nat → α) : Prop where
  /-- There is an execution for every budget, and the result reports it. -/
  reports : ∀ budget, ∃ trace m', m.Executes budget trace m' ∧
    result budget = report m' (.ofTrace trace)
  /-- There is no other. -/
  unique : ∀ {budget trace₁ trace₂ m₁ m₂}, m.Executes budget trace₁ m₁ →
    m.Executes budget trace₂ m₂ → trace₁ = trace₂ ∧ m₁ = m₂
  /-- A longer budget begins as a shorter one. -/
  continues : ∀ {budget more trace₁ trace₂ m₁ m₂}, budget ≤ more → m.Executes budget trace₁ m₁ →
    m.Executes more trace₂ m₂ → trace₁ <+: trace₂
  /-- A budget beyond what is used changes nothing. -/
  stays : ∀ {budget more trace m'}, budget ≤ more → m.Executes more trace m' →
    trace.length ≤ budget → result more = result budget

/-- Whatever reports the run of a machine reports what the rules make of it. -/
theorem implements_of_run {α : Type} {report : Machine n → Tally → α} {result : Nat → α}
    (h : ∀ budget, result budget = report (m.run budget).machine (m.run budget).tally) :
    m.Implements report result where
  reports budget := by
    obtain ⟨trace, hexec, htally⟩ := executes_run budget m
    exact ⟨trace, _, hexec, by rw [h, htally]⟩
  unique h₁ h₂ := h₁.unique h₂
  continues hle h₁ h₂ := h₁.isPrefixOf h₂ hle
  stays {budget more _ _} hle hmore hlength := by
    obtain ⟨trace₁, hexec₁, htally₁⟩ := executes_run budget m
    obtain ⟨trace₂, hexec₂, htally₂⟩ := executes_run more m
    obtain ⟨rfl, rfl⟩ := hmore.unique hexec₂
    obtain ⟨rfl, hm⟩ := hexec₁.unique (hmore.of_length_le hle hlength)
    rw [h, h, htally₁, htally₂, hm]

end Machine

namespace Cell

/-- **A cell runs its tape by the rules**: from the first byte with an empty accumulator, on its own
tape or on its tape joined to a neighbour's, where the channel head starts on the neighbour's. -/
theorem implements_rules (cell : Cell) :
    Machine.Implements
      { memory := cell.tape, place := 0, head0 := 0, head1 := 0, acc := 0, stream := cell.stream }
      (fun m tally => ({ cell with tape := m.memory, stream := m.stream }, tally))
      (fun budget => cell.runAlone budget) ∧
    ∀ neighbour : Tape,
      Machine.Implements
        { memory := cell.tape ++ neighbour, place := 0, head0 := 0, head1 := 64, acc := 0,
          stream := cell.stream }
        (fun m tally =>
          ({ cell with tape := JoinedTape.own m.memory, stream := m.stream },
            JoinedTape.neighbour m.memory, tally))
        (fun budget => cell.runBeside budget neighbour) := by
  refine ⟨Machine.implements_of_run fun _ => rfl, fun neighbour => ?_⟩
  exact Machine.implements_of_run fun _ => rfl

end Cell

end TapeLife
