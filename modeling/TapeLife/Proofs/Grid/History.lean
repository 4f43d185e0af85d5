import TapeLife.Grid.History
import TapeLife.Proofs.Grid.Batches

/-!
# Proofs/Grid/History — what every history of a soup keeps

    create ──▸ g₀ ──change──▸ g₁ ──change──▸ …      a change that fails goes nowhere

`Grid.apply_cases` says once what a change can do to a soup.  From it come the facts that every
change keeps (`WellFormed.apply`) and the few that some changes break: only a load replaces other
parameters than the seed, and only starting over and loading turn the epoch back.  A whole history
keeps what every change keeps (`WellFormed.after`), so everything that is ever reached is
well-formed, can be read exactly at its own coordinates, and is all in its bytes
(`Grid.kept_by_history`).
-/

namespace TapeLife

/-- Any seed will do. -/
theorem Params.Valid.withSeed {params : Params} (hv : params.Valid) (seed : UInt64) :
    Params.Valid { params with seed } :=
  ⟨hv.width_pos, hv.height_pos, hv.cellCount_le, hv.rate_isFraction, hv.maxDist_le⟩

namespace Grid

variable {g : Grid}

/-! ## What a change can do -/

/-- **A program is written at coordinates on the soup and nowhere else.** -/
theorem set_eq_ok {x y : Int32} {program : Program} {h : Grid} :
    g.set x y program = .ok h ↔ ∃ i, g.place? x y = .ok i ∧
      h = { g with cells := g.cells.modify i fun cell => (program.writeTo cell).unlock } := by
  rw [set]
  rcases g.place? x y with cause | i
  · simp [bind, Except.bind]
  · simp [bind, Except.bind, eq_comm]

/-- What is loaded is well-formed, and all of it comes from the bytes. -/
theorem load_cases (g : Grid) (bytes : List UInt8) :
    (∃ cause, g.load bytes = (g, some cause)) ∨
      ∃ loaded : Grid, loaded.WellFormed ∧ loaded.save = bytes ∧ g.load bytes = (loaded, none) := by
  rcases h : ofSaved bytes with cause | loaded
  · exact .inl ⟨cause, by simp only [load, h]⟩
  · obtain ⟨hwell, hsave⟩ := save_of_ofSaved_eq_ok h
    exact .inr ⟨loaded, hwell, hsave, by simp only [load, h]⟩

/-- **What a change can do**: fail, and then nothing happens, or start over, write one program, let
epochs pass, or put a loaded soup in place. -/
theorem apply_cases (g : Grid) (change : Change) :
    (∃ cause, g.apply change = (g, some cause)) ∨
      (∃ seed fill, change = .reset seed fill ∧ g.apply change = (g.reset seed fill, none)) ∨
      (∃ x y i, ∃ program : Program, g.place? x y = .ok i ∧
        (change = .set x y program ∨
          ∃ id, change = .setBuiltIn x y id ∧ Program.builtIn? id = some program) ∧
        g.apply change = ({ g with cells := g.cells.modify i fun cell =>
          (program.writeTo cell).unlock }, none)) ∨
      (∃ entropy speed, change = .compute entropy speed ∧
        g.apply change = ((g.compute entropy speed).1, none)) ∨
      ∃ bytes, ∃ loaded : Grid, change = .load bytes ∧ loaded.WellFormed ∧ loaded.save = bytes ∧
        g.apply change = (loaded, none) := by
  cases change with
  | reset seed fill => exact .inr (.inl ⟨seed, fill, rfl, rfl⟩)
  | set x y program =>
    rcases h : g.set x y program with cause | written
    · exact .inl ⟨cause, by rw [apply, h, orStay]⟩
    · obtain ⟨i, hi, rfl⟩ := set_eq_ok.mp h
      exact .inr (.inr (.inl ⟨x, y, i, program, hi, .inl rfl, by rw [apply, h, orStay]⟩))
  | setBuiltIn x y id =>
    rcases hid : Program.builtIn? id with _ | program
    · exact .inl ⟨.unknownProgram id, by simp only [apply, setBuiltIn, hid, orStay]⟩
    rcases h : g.set x y program with cause | written
    · exact .inl ⟨cause, by simp only [apply, setBuiltIn, hid, h, orStay]⟩
    · obtain ⟨i, hi, rfl⟩ := set_eq_ok.mp h
      exact .inr (.inr (.inl ⟨x, y, i, program, hi, .inr ⟨id, rfl, hid⟩, by
        simp only [apply, setBuiltIn, hid, h, orStay]⟩))
  | compute entropy speed => exact .inr (.inr (.inr (.inl ⟨entropy, speed, rfl, rfl⟩)))
  | load bytes =>
    rcases g.load_cases bytes with hfail | ⟨loaded, hwell, hsave, hload⟩
    · exact .inl hfail
    · exact .inr (.inr (.inr (.inr ⟨bytes, loaded, rfl, hwell, hsave, hload⟩)))

/-- A change that fails leaves the soup as it is. -/
theorem fst_apply_of_failed (g : Grid) (change : Change) (hfail : (g.apply change).2 ≠ none) :
    (g.apply change).1 = g := by
  obtain ⟨cause, h⟩ | ⟨_, _, -, h⟩ | ⟨_, _, _, _, -, -, h⟩ | ⟨_, _, -, h⟩ | ⟨_, _, -, -, -, h⟩ :=
    g.apply_cases change
  · exact congrArg Prod.fst h
  all_goals exact absurd (congrArg Prod.snd h) hfail

/-! ## Soups stay well-formed -/

theorem wellFormed_grow {params : Params} (hv : params.Valid) (fill : Fill) :
    (grow params fill).WellFormed where
  valid := hv
  size_cells := Array.size_ofFn

/-- **A soup is created from valid parameters and from no others.** -/
theorem create_eq_ok {params : Params} :
    create params = .ok g ↔ params.Valid ∧ g = grow params .zero := by
  rw [create]
  rcases hf : params.fault? with - | cause
  · simp [(Params.fault?_eq_none_iff params).mp hf, eq_comm]
  · refine ⟨nofun, ?_⟩
    rintro ⟨hv, -⟩
    rw [(Params.fault?_eq_none_iff params).mpr hv] at hf
    exact absurd hf nofun

/-- **Every change keeps a soup well-formed**, whether it fails or not. -/
theorem WellFormed.apply (hg : g.WellFormed) (change : Change) :
    (g.apply change).1.WellFormed := by
  obtain ⟨cause, h⟩ | ⟨seed, fill, -, h⟩ | ⟨x, y, i, program, -, -, h⟩ | ⟨entropy, speed, -, h⟩ |
    ⟨bytes, loaded, -, hwell, -, h⟩ := g.apply_cases change <;> rw [h]
  · exact hg
  · exact wellFormed_grow (hg.valid.withSeed seed) fill
  · exact ⟨hg.valid, (Array.size_modify ..).trans hg.size_cells⟩
  · exact hg.advance entropy speed
  · exact hwell

/-- **Every history keeps a soup well-formed.** -/
theorem WellFormed.after (hg : g.WellFormed) (changes : List Change) :
    (g.after changes).WellFormed := by
  induction changes generalizing g with
  | nil => exact hg
  | cons change changes ih => exact ih (hg.apply change)

/-- A well-formed soup is read at its own coordinates and at no others. -/
theorem exists_get_iff (hg : g.WellFormed) (x y : Int32) :
    (∃ cell, g.get x y = .ok cell) ↔
      (0 ≤ x.toInt ∧ x.toInt < g.params.width.toNat) ∧
        0 ≤ y.toInt ∧ y.toInt < g.params.height.toNat := by
  rw [get, place?]
  split
  · rename_i hin
    have hlt : g.torus.index x.toInt.toNat y.toInt.toNat < g.cells.size := by
      rw [hg.size_eq_area]
      refine Torus.index_lt_area ?_ ?_
      · change x.toInt.toNat < g.params.width.toNat; omega
      · change y.toInt.toNat < g.params.height.toNat; omega
    refine iff_of_true ⟨g.cells[g.torus.index x.toInt.toNat y.toInt.toNat], ?_⟩
      ⟨⟨hin.1, hin.2.1⟩, hin.2.2⟩
    simp only [bind, Except.bind, Array.getElem?_eq_getElem hlt]
  · rename_i hout
    refine iff_of_false ?_ fun h => hout ⟨h.1.1, h.1.2, h.2⟩
    rintro ⟨cell, h⟩
    cases h

/-! ## Epochs -/

/-- An epoch moves the counter on by one, up to its largest value. -/
theorem toNat_epoch_stepWith (g : Grid) (key : UInt64) :
    (g.stepWith key).1.epoch.toNat = min (g.epoch.toNat + 1) (2 ^ 32 - 1) := by
  have hlt := g.epoch.toNat_lt
  change (if g.epoch.toNat + 1 < UInt32.size then g.epoch + 1 else g.epoch).toNat = _
  split
  · rename_i h
    rw [UInt32.toNat_add, UInt32.toNat_one, Nat.mod_eq_of_lt h, Nat.min_eq_left]
    exact Nat.le_of_lt_succ h
  · rename_i h
    change ¬ g.epoch.toNat + 1 < 2 ^ 32 at h
    omega

/-- **Some epochs move the counter on by their number**, up to its largest value. -/
theorem toNat_epoch_advance (entropy : Nat → UInt64) (speed : Nat) (g : Grid) :
    (g.advance entropy speed).1.epoch.toNat = min (g.epoch.toNat + speed) (2 ^ 32 - 1) := by
  induction speed generalizing entropy g with
  | zero =>
    have hlt := g.epoch.toNat_lt
    change g.epoch.toNat = _
    omega
  | succ speed ih =>
    change (((g.step (entropy 0)).1.advance _ speed).1).epoch.toNat = _
    rw [ih, step, toNat_epoch_stepWith]
    omega

/-! ## Histories -/

/-- What a change may touch besides the cells: a load that succeeds may touch everything, starting
over the seed and the epoch, and computing moves the epoch on. -/
theorem params_epoch_apply (g : Grid) (change : Change) :
    ((∃ bytes, change = .load bytes) ∧ (g.apply change).2 = none) ∨
      (∃ seed fill, change = .reset seed fill) ∧
        (∃ seed, (g.apply change).1.params = { g.params with seed }) ∨
      (g.apply change).1.params = g.params ∧ g.epoch.toNat ≤ (g.apply change).1.epoch.toNat := by
  obtain ⟨cause, h⟩ | ⟨seed, fill, hc, h⟩ | ⟨x, y, i, program, -, -, h⟩ | ⟨entropy, speed, -, h⟩ |
    ⟨bytes, loaded, hc, -, -, h⟩ := g.apply_cases change
  · rw [h]; exact .inr (.inr ⟨rfl, Nat.le_refl _⟩)
  · rw [h]; exact .inr (.inl ⟨⟨seed, fill, hc⟩, seed, rfl⟩)
  · rw [h]; exact .inr (.inr ⟨rfl, Nat.le_refl _⟩)
  · rw [h]
    refine .inr (.inr ⟨params_advance entropy speed g, ?_⟩)
    have hlt := g.epoch.toNat_lt
    change _ ≤ (g.advance entropy speed).1.epoch.toNat
    rw [toNat_epoch_advance]
    omega
  · exact .inl ⟨⟨bytes, hc⟩, by rw [h]⟩

/-- **What every history keeps.**  A soup that was created and then changed in any way, failures
among the changes, has valid parameters and a cell for every place, is read at its own coordinates
and at no others, and is loaded from its own bytes in place of any soup.  Whatever comes next, a
failure leaves it as it is; only a load that succeeds changes other parameters than the seed, and
the seed itself changes besides only by starting over; the epoch goes back only by one of the two,
and computing sets it forward by the number of epochs, up to its largest value. -/
theorem kept_by_history {params : Params} {created : Grid} (h : create params = .ok created)
    (changes : List Change) :
    let g := created.after changes
    (g.params.fault? = none ∧ g.cells.size = g.params.width.toNat * g.params.height.toNat) ∧
      (∀ x y, (∃ cell, g.get x y = .ok cell) ↔
        (0 ≤ x.toInt ∧ x.toInt < g.params.width.toNat) ∧
          0 ≤ y.toInt ∧ y.toInt < g.params.height.toNat) ∧
      (∀ other : Grid, other.load g.save = (g, none)) ∧
      ∀ change,
        let next := g.apply change
        let isLoaded := (∃ bytes, change = .load bytes) ∧ next.2 = none
        let isReset := ∃ seed fill, change = .reset seed fill
        (next.2 ≠ none → next.1 = g) ∧
          ({ next.1.params with seed := g.params.seed } ≠ g.params → isLoaded) ∧
          (next.1.params.seed ≠ g.params.seed → isReset ∨ isLoaded) ∧
          (next.1.epoch < g.epoch → isReset ∨ isLoaded) ∧
          ∀ entropy speed, change = .compute entropy speed →
            next.1.epoch.toNat = min (g.epoch.toNat + speed) (2 ^ 32 - 1) := by
  intro g
  obtain ⟨hv, rfl⟩ := create_eq_ok.mp h
  have hg : g.WellFormed := (wellFormed_grow hv .zero).after changes
  refine ⟨⟨(Params.fault?_eq_none_iff _).mpr hg.valid, hg.size_cells⟩, exists_get_iff hg,
    load_save hg, fun change => ?_⟩
  intro next isLoaded isReset
  refine ⟨fst_apply_of_failed g change, fun hparams => ?_, fun hseed => ?_, fun hepoch => ?_, ?_⟩
  · rcases g.params_epoch_apply change with hload | ⟨-, seed, hsame⟩ | ⟨hsame, -⟩
    · exact hload
    · exact absurd (by rw [hsame]) hparams
    · exact absurd (by rw [hsame]) hparams
  · rcases g.params_epoch_apply change with hload | ⟨hreset, -⟩ | ⟨hsame, -⟩
    · exact .inr hload
    · exact .inl hreset
    · exact absurd (by rw [hsame]) hseed
  · rcases g.params_epoch_apply change with hload | ⟨hreset, -⟩ | ⟨-, hle⟩
    · exact .inr hload
    · exact .inl hreset
    · exact absurd (UInt32.lt_iff_toNat_lt.mp hepoch) (Nat.not_lt.mpr hle)
  · rintro entropy speed rfl
    exact toNat_epoch_advance entropy speed g

/-- A history with a write on the soup, one beside it, a load that fails, one that succeeds and
brings the last epoch that can be counted, and epochs after it. -/
theorem kept_by_history_square :
    create square.params = .ok (grow square.params .zero) ∧
      let g := (grow square.params .zero).after [.setBuiltIn 1 1 1, .set 2 0 .noise, .load [0x42],
        .load square.save, .compute (fun _ => 0) 3]
      (g.params.fault? = none ∧ g.cells.size = g.params.width.toNat * g.params.height.toNat) ∧
        (∀ other : Grid, other.load g.save = (g, none)) ∧
        (g.apply (.compute (fun _ => 5) 7)).1.epoch.toNat
          = min (g.epoch.toNat + 7) (2 ^ 32 - 1) := by
  have hcreate : create square.params = .ok (grow square.params .zero) :=
    create_eq_ok.mpr ⟨wellFormed_square.valid, rfl⟩
  obtain ⟨hsize, -, hsave, hnext⟩ := kept_by_history hcreate [.setBuiltIn 1 1 1, .set 2 0 .noise,
    .load [0x42], .load square.save, .compute (fun _ => 0) 3]
  exact ⟨hcreate, hsize, hsave, (hnext _).2.2.2.2 _ _ rfl⟩

end Grid

end TapeLife
