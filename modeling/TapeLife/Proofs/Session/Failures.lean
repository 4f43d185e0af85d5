import TapeLife.Proofs.Session.Start

/-!
# Proofs/Session/Failures — a run fails before its first epoch or not at all

    saved soup ──▸ soup ──▸ table ──▸ batch ──▸ … ──▸ batch ──▸ end
       ┆ cannot be loaded     ┆ cannot be opened       ┆ rows and snapshots may be lost
       ▾                      ▾                        ▾
    nothing was touched     failure                  a report, and the run goes on

Settings that pass the check can always grow a soup, so a run fails only if the saved soup that it
goes on from cannot be loaded (`Settings.startGrid_error_iff`) or else its table cannot be opened
(`Settings.openAt_error_iff`).  What is computed after that comes from the soup alone, whatever
becomes of rows and snapshots: batches compute what the soup computes in as many epochs
(`Session.batches_computes`).
-/

namespace TapeLife

/-- The report of an epoch that was computed, if the event is one. -/
def Event.done? : Event → Option EpochReport
  | .epochDone report => some report
  | _ => none

/-- Every epoch is done once. -/
theorem filterMap_done?_ofEpoch (reports : List EpochReport) :
    (reports.flatMap Event.ofEpoch).filterMap Event.done? = reports := by
  induction reports with
  | nil => rfl
  | cons report reports ih =>
    have hreport : (Event.ofEpoch report).filterMap Event.done? = [report] := by
      rw [Event.ofEpoch]
      split <;> split <;> rfl
    rw [List.flatMap_cons, List.filterMap_append, hreport, ih, List.singleton_append]

namespace Settings

variable {s : Settings} {tree : FileTree} {path : Path}

/-! ## What can go wrong -/

/-- The saved soup that a run goes on from: the one that the settings name, or the latest checkpoint
if they ask for it and there is one. -/
inductive ResumesFrom (s : Settings) (tree : FileTree) : Path → Prop
  | named : s.checkpoint.resumeFrom ≠ "" → s.checkpoint.resumeFrom ≠ latestWord →
      ResumesFrom s tree s.checkpoint.resumeFrom
  | latest {path : Path} : s.checkpoint.resumeFrom = latestWord →
      tree.latestCheckpoint? s.checkpoint.path = some path → ResumesFrom s tree path

/-- There is a saved soup to go on from, but it cannot be read or is not one. -/
def CannotResume (s : Settings) (tree : FileTree) : Prop :=
  ∃ path, s.ResumesFrom tree path ∧
    ¬ ∃ bytes g, tree.read path = .ok bytes ∧ Grid.ofSaved bytes = .ok g

/-- A table of censuses is wanted in a file, but the directories above the file cannot be made or
the file cannot be opened. -/
def CannotOpenTable (s : Settings) (tree : FileTree) : Prop :=
  s.metrics.enabled = true ∧ s.metrics.outputFile ≠ "" ∧
    ¬ ∃ made opened, tree.makeParents s.metrics.outputFile = (made, none) ∧
      made.create s.metrics.outputFile = .ok opened

theorem resumePath?_eq_some_iff : s.resumePath? tree = some path ↔ s.ResumesFrom tree path := by
  rw [resumePath?]
  constructor
  · intro h
    split at h
    · cases h
    · rename_i hsome
      split at h
      · rename_i hlatest
        exact .latest hlatest h
      · rename_i hnamed
        obtain rfl := Option.some.inj h
        exact .named hsome hnamed
  · rintro (⟨hsome, hnamed⟩ | ⟨hlatest, h⟩)
    · rw [if_neg hsome, if_neg hnamed]
    · rw [if_neg (by rw [hlatest]; decide), if_pos hlatest, h]

/-- **There is a soup to begin with**, unless a saved one cannot be loaded. -/
theorem startGrid_error_iff (hvalid : s.world.Valid)
    (hseeds : ∀ seed ∈ s.seeds, CanPlant s.world seed) :
    (∃ cause, (s.startGrid tree).2 = .error cause) ↔ s.CannotResume tree := by
  rw [startGrid, Grid.create_eq_ok.mpr ⟨hvalid, rfl⟩]
  rcases hpath : s.resumePath? tree with _ | path
  · obtain ⟨g, hfresh, -⟩ := exists_freshGrid hvalid hseeds
    refine iff_of_false ?_ ?_
    · simp [hfresh]
    · rintro ⟨path, hresumes, -⟩
      rw [resumePath?_eq_some_iff.mpr hresumes] at hpath
      cases hpath
  · have hresumes := resumePath?_eq_some_iff.mp hpath
    have hpath' : ∀ {path'}, s.ResumesFrom tree path' → path' = path := fun h => by
      rw [← resumePath?_eq_some_iff, hpath] at h
      exact (Option.some.inj h).symm
    obtain ⟨bytes, loaded, hread, hsaved, hload⟩ | ⟨⟨cause, hload⟩, hnone⟩ :=
      (Grid.grow s.world .zero).loadFrom_cases tree path
    · simp only [hload]
      refine iff_of_false ?_ ?_
      · rintro ⟨cause, h⟩
        cases h
      · rintro ⟨path', hresumes', hnone⟩
        obtain rfl := hpath' hresumes'
        exact hnone ⟨bytes, loaded, hread, hsaved⟩
    · simp only [hload]
      exact iff_of_true ⟨cause, rfl⟩ ⟨path, hresumes, hnone⟩

/-- **There is a table**, unless one is wanted that cannot be opened. -/
theorem openAt_error_iff :
    (∃ cause, (StatsLog.openAt tree (Session.tablePath? s)).2 = .error cause) ↔
      s.CannotOpenTable tree := by
  rw [Session.tablePath?, CannotOpenTable]
  split
  · rename_i hwanted
    obtain ⟨henabled, hfile⟩ : s.metrics.enabled = true ∧ s.metrics.outputFile ≠ "" := by
      simpa using hwanted
    rw [StatsLog.openAt]
    rcases hmade : tree.makeParents s.metrics.outputFile with ⟨made, _ | cause⟩
    · rcases hopened : made.create s.metrics.outputFile with cause | ⟨place, opened⟩ <;>
        simp [henabled, hfile, hopened]
    · simp [henabled, hfile]
  · rename_i hwanted
    refine iff_of_false ?_ fun h => hwanted ?_
    · rintro ⟨cause, h⟩
      cases h
    · simp [h.1, h.2.1]

end Settings

namespace Session

variable {settings : Settings} {s : Session} {medium : Medium}

/-! ## What is computed -/

/-- The reports of the epochs that were computed so far. -/
def epochsDone (s : Session) : List EpochReport := s.events.filterMap Event.done?

/-- From one state of a run to the other nothing was computed. -/
structure Idle (s t : Session) : Prop where
  grid_eq : t.grid = s.grid
  epochsDone_eq : t.epochsDone = s.epochsDone

namespace Idle

theorem refl (s : Session) : s.Idle s := ⟨rfl, rfl⟩

theorem trans {s t u : Session} (hst : s.Idle t) (htu : t.Idle u) : s.Idle u :=
  ⟨htu.grid_eq.trans hst.grid_eq, htu.epochsDone_eq.trans hst.epochsDone_eq⟩

theorem ite {s t : Session} (h : s.Idle t) (p : Prop) [Decidable p] :
    s.Idle (if p then t else s) := by
  split
  · exact h
  · exact refl s

theorem report {events : List Event} (h : events.filterMap Event.done? = []) (s : Session) :
    s.Idle (s.report events) := by
  refine ⟨rfl, ?_⟩
  rw [epochsDone, Session.report, List.filterMap_append, h, List.append_nil]
  rfl

/-- A census computes nothing, whether its row is lost or not. -/
theorem takeCensus (s : Session) (medium : Medium) : s.Idle (s.takeCensus medium) := by
  rw [Session.takeCensus]
  rcases medium.addRow s.tree s.log (Census.ofGrid s.grid) with ⟨tree, log, failure⟩
  have hevents : (.census (Census.ofGrid s.grid) :: failure.toList.map .rowFailed).filterMap
      Event.done? = [] := by
    cases failure <;> rfl
  have hwritten : s.Idle { s with tree, log } := ⟨rfl, rfl⟩
  exact hwritten.trans (report hevents _)

theorem sendSnapshot (settings : Settings) (s : Session) : s.Idle (s.sendSnapshot settings) :=
  ⟨rfl, rfl⟩

end Idle

theorem filterMap_done?_samples (g : Grid) : (samples g).filterMap Event.done? = [] := by
  rw [samples, List.filterMap_map, List.filterMap_eq_nil_iff]
  exact fun _ _ => rfl

/-- **A batch computes what its soup computes**, whatever becomes of the rest of the run. -/
theorem batch_computes (settings : Settings) (entropy : Nat → UInt64) (s : Session)
    (medium : Medium) :
    let computed := s.grid.advance entropy (batchSize settings s.grid).toNat
    (s.batch settings entropy medium).grid = computed.1 ∧
      (s.batch settings entropy medium).epochsDone = s.epochsDone ++ computed.2 := by
  intro computed
  let totals := Totals.sum (computed.2.map (·.totals))
  let done : Session :=
    { s with grid := computed.1, totals := s.totals + totals }.report
      (computed.2.flatMap Event.ofEpoch)
  have hdone : done.epochsDone = s.epochsDone ++ computed.2 :=
    (List.filterMap_append ..).trans (congrArg _ (filterMap_done?_ofEpoch _))
  have hprogress : (Event.progress computed.1.epoch totals :: samples computed.1).filterMap
      Event.done? = [] := filterMap_done?_samples computed.1
  have hidle : done.Idle (s.batch settings entropy medium) :=
    (((Idle.report hprogress done).ite _).trans ((Idle.takeCensus _ medium).ite _)).trans
      ((Idle.sendSnapshot settings _).ite _)
  exact ⟨hidle.grid_eq, hidle.epochsDone_eq.trans hdone⟩

/-- **Batches compute what the soup computes** in as many epochs, up to the one that was asked
for. -/
theorem batches_computes (settings : Settings) (entropy : Nat → UInt64) (k : Nat) (s : Session)
    (medium : Medium) :
    let computed := s.grid.advance entropy
      (min (k * settings.run.speed.toNat) (settings.run.epochs.toNat - s.grid.epoch.toNat))
    (s.batches settings entropy k medium).grid = computed.1 ∧
      (s.batches settings entropy k medium).epochsDone = s.epochsDone ++ computed.2 := by
  induction k generalizing entropy s with
  | zero =>
    rw [Nat.zero_mul, Nat.zero_min]
    exact ⟨rfl, (List.append_nil _).symm⟩
  | succ k ih =>
    rw [batches]
    split
    · rename_i hlt
      obtain ⟨hgrid, hdone⟩ := batch_computes settings entropy s medium
      obtain ⟨hgrid', hdone'⟩ :=
        ih (fun i => entropy (i + settings.run.speed.toNat)) (s.batch settings entropy medium)
      have hsize := toNat_batchSize (UInt32.le_of_lt hlt)
      have hltNat := UInt32.lt_iff_toNat_lt.mp hlt
      have hbound := settings.run.epochs.toNat_lt
      generalize (batchSize settings s.grid).toNat = size at hgrid hdone hsize
      generalize hleft : min (k * settings.run.speed.toNat) (settings.run.epochs.toNat
        - (s.batch settings entropy medium).grid.epoch.toNat) = left at hgrid' hdone'
      rw [hgrid, Grid.toNat_epoch_advance] at hleft
      have hsum : min ((k + 1) * settings.run.speed.toNat)
          (settings.run.epochs.toNat - s.grid.epoch.toNat) = size + left := by
        rw [Nat.succ_mul]
        omega
      -- a batch that is shorter than the others is the last one, and needs no entropy after it
      have hentropy : (s.grid.advance entropy size).1.advance
          (fun i => entropy (i + settings.run.speed.toNat)) left
            = (s.grid.advance entropy size).1.advance (fun i => entropy (size + i)) left := by
        obtain rfl | rfl : left = 0 ∨ size = settings.run.speed.toNat := by omega
        · rfl
        · simp only [Nat.add_comm]
      rw [hsum, Grid.advance_add]
      rw [hgrid, hentropy] at hgrid' hdone'
      refine ⟨hgrid', ?_⟩
      rw [hdone', hdone, List.append_assoc]
    · rename_i hdone
      have hle := UInt32.le_iff_toNat_le.mp (UInt32.not_lt.mp hdone)
      rw [Nat.sub_eq_zero_of_le hle, Nat.min_zero]
      exact ⟨rfl, (List.append_nil _).symm⟩

/-- What is left when a run has come to its last epoch computes nothing. -/
theorem idle_finish (settings : Settings) (start : UInt32) (s : Session) (medium : Medium) :
    s.Idle (s.finish settings start medium) := by
  have hsent := Idle.sendSnapshot settings s
  rw [finish]
  generalize s.sendSnapshot settings = sent at hsent ⊢
  have hrest (settled : Session) (hsettled : sent.Idle settled) :
      let counted := if settings.metrics.enabled then settled.takeCensus medium else settled
      let reported := counted.report
        [.complete (counted.grid.epoch.toNat - start.toNat) counted.totals]
      s.Idle { reported with tree := reported.log.close reported.tree } := by
    intro counted reported
    have hreported : s.Idle reported := (hsent.trans hsettled).trans <|
      ((Idle.takeCensus settled medium).ite _).trans (Idle.report rfl counted)
    exact ⟨hreported.grid_eq, hreported.epochsDone_eq⟩
  rcases sent.queue with _ | q
  · exact hrest sent (Idle.refl sent)
  · let outcome := medium.settle sent.tree q
    have hevents : (if outcome.2.2 = 0 then [] else [Event.savesFailed outcome.2.2]).filterMap
        Event.done? = [] := by
      split <;> rfl
    have hwritten : sent.Idle { sent with tree := outcome.1, queue := some outcome.2.1 } :=
      ⟨rfl, rfl⟩
    exact hrest _ (hwritten.trans (Idle.report hevents _))

/-- **A run computes what its soup computes** up to the epoch that was asked for. -/
theorem epochsDone_complete (hspeed : settings.run.speed ≠ 0) (entropy : Nat → UInt64) (s : Session)
    (medium : Medium) : (s.complete settings entropy medium).epochsDone = s.epochsDone ++
      (s.grid.advance entropy (settings.run.epochs.toNat - s.grid.epoch.toNat)).2 := by
  have hpos : 0 < settings.run.speed.toNat :=
    Nat.pos_of_ne_zero fun h => hspeed (UInt32.toNat_inj.mp h)
  obtain ⟨-, hdone⟩ := batches_computes settings entropy
    (settings.run.epochs.toNat - s.grid.epoch.toNat) s medium
  rw [Nat.min_eq_right (Nat.le_mul_of_pos_right _ hpos)] at hdone
  exact (idle_finish settings _ _ medium).epochsDone_eq.trans hdone

/-! ## How a run starts -/

theorem filterMap_done?_startGrid (settings : Settings) (tree : FileTree) :
    (settings.startGrid tree).1.filterMap Event.done? = [] := by
  rw [Settings.startGrid]
  split
  · rfl
  · split
    · split
      · rfl
      · split <;> rfl
    · split <;> rfl

/-- **What a start can do**: fail for the soup, before anything is written, or fail for the table,
or come to a run that has computed nothing yet. -/
theorem start_cases (settings : Settings) (tree : FileTree) :
    (∃ cause, (settings.startGrid tree).2 = .error cause ∧
      ∃ events, start settings tree = (tree, events, .error (.soup cause))) ∨
    ∃ g, (settings.startGrid tree).2 = .ok g ∧
      ((∃ cause, (StatsLog.openAt tree (tablePath? settings)).2 = .error cause ∧
        ∃ files events, start settings tree = (files, events, .error (.file cause))) ∨
      ∃ log first files events, (StatsLog.openAt tree (tablePath? settings)).2 = .ok log ∧
        start settings tree = (files, events, .ok first) ∧ first.grid = g ∧
          first.epochsDone = []) := by
  have hevents := filterMap_done?_startGrid settings tree
  rw [start]
  rcases hgrid : settings.startGrid tree with ⟨events, cause | g⟩
  · exact .inl ⟨cause, rfl, events, rfl⟩
  rw [hgrid] at hevents
  rcases StatsLog.openAt tree (tablePath? settings) with ⟨files, cause | log⟩
  · exact .inr ⟨g, rfl, .inl ⟨cause, rfl, files, _, rfl⟩⟩
  · refine .inr ⟨g, rfl, .inr ⟨log, _, files, _, rfl, rfl, rfl, ?_⟩⟩
    have hopening : (opening settings g).filterMap Event.done? = [] := filterMap_done?_samples g
    rw [epochsDone, List.filterMap_append, hopening, List.append_nil]
    exact hevents

/-- **A run that starts does not fail, and computes what its soup computes.** -/
theorem run_of_start (hspeed : settings.run.speed ≠ 0) {tree files : FileTree}
    {events : List Event} {first : Session}
    (hstart : start settings tree = (files, events, .ok first)) (hfirst : first.epochsDone = [])
    (entropy : Nat → UInt64) (medium : Medium) :
    let outcome := run settings entropy tree medium
    outcome.2.2.2 = none ∧ outcome.2.1.filterMap Event.done?
      = (first.grid.advance entropy (settings.run.epochs.toNat - first.grid.epoch.toNat)).2 := by
  intro outcome
  have hdone := epochsDone_complete hspeed entropy first medium
  rw [hfirst, List.nil_append] at hdone
  have houtcome : outcome = ((first.complete settings entropy medium).tree,
      (first.complete settings entropy medium).events,
      (first.complete settings entropy medium).writerEvents, none) := by
    simp only [outcome, run, hstart]
  rw [houtcome]
  exact ⟨rfl, hdone⟩

/-- **A run fails where it should, and early.**  Take settings that pass the check, any files, and
any medium for rows and snapshots.  The run fails exactly if the saved soup that it goes on from
cannot be loaded, or else the table that is wanted cannot be opened; in the first case the files are
what they were.  Otherwise it computes the epochs of its soup up to the one that was asked for, all
of them and in order, and after every number of batches it has the soup that the same epochs without
files give, so rows and snapshots that are lost on the way change nothing. -/
theorem run_fails_early {s : Settings} {warnings : List Warning} (hcheck : s.check = .ok warnings)
    (entropy : Nat → UInt64) (tree : FileTree) (medium : Medium) :
    let outcome := run s entropy tree medium
    (outcome.2.2.2 ≠ none ↔ s.CannotResume tree ∨ s.CannotOpenTable tree) ∧
    ((∃ cause, outcome.2.2.2 = some (.soup cause)) ↔ s.CannotResume tree) ∧
    (s.CannotResume tree → outcome.1 = tree) ∧
    (outcome.2.2.2 = none → ∃ g first,
      (s.startGrid tree).2 = .ok g ∧ (start s tree).2.2 = .ok first ∧
      (∀ k, (first.batches s entropy k medium).grid = (g.advance entropy
        (min (k * s.run.speed.toNat) (s.run.epochs.toNat - g.epoch.toNat))).1) ∧
      outcome.2.1.filterMap Event.done?
        = (g.advance entropy (s.run.epochs.toNat - g.epoch.toNat)).2) := by
  intro outcome
  obtain ⟨hvalid, hspeed, hseeds, -, -⟩ := Settings.check_succeeds_iff.mp ⟨warnings, hcheck⟩
  rw [← Settings.startGrid_error_iff hvalid hseeds, ← Settings.openAt_error_iff]
  obtain ⟨cause, hgrid, events, hstart⟩ | ⟨g, hgrid, ⟨cause, htable, files, events, hstart⟩ |
    ⟨log, first, files, events, htable, hstart, rfl, hfirst⟩⟩ := start_cases s tree
  · have houtcome : outcome = (tree, events, [], some (.soup cause)) := by
      simp only [outcome, run, hstart]
    simp [houtcome, hgrid]
  · have houtcome : outcome = (files, events, [], some (.file cause)) := by
      simp only [outcome, run, hstart]
    simp [houtcome, hgrid, htable]
  · obtain ⟨hfailure, hdone⟩ := run_of_start hspeed hstart hfirst entropy medium
    change outcome.2.2.2 = none at hfailure
    exact ⟨by simp [hfailure, hgrid, htable], by simp [hfailure, hgrid], by simp [hgrid],
      fun _ => ⟨first.grid, first, hgrid, by rw [hstart],
        fun k => (batches_computes s entropy k first medium).1, hdone⟩⟩

/-- Three epochs of two cells, with checkpoints and with a row for every batch. -/
def diary : Settings :=
  { Settings.standard with
    world := { Params.standard with width := 2, height := 1 }
    run := { RunSettings.standard with epochs := 3, speed := 2 }
    checkpoint := { CheckpointSettings.standard with enabled := true }
    metrics := { MetricsSettings.standard with
      enabled := true, interval := 1, outputFile := "rows.csv" } }

/-- A medium that is full: every row and every snapshot is lost. -/
def fullMedium : Medium where
  addRow tree log _ := (tree, log, some .noSpace)
  settle tree q := (tree, { q with waiting := [], closed := true }, q.waiting.length)

/-- The diary is computed though nothing of it is written; it is not when it is to go on from a file
that is missing, or when a directory stands where its table is to be. -/
theorem run_fails_early_diary :
    let entropy := fun _ => (0 : UInt64)
    let resuming : Settings :=
      { diary with checkpoint := { diary.checkpoint with resumeFrom := "gone.bfsw" } }
    let blocked : FileTree := ⟨[(["rows.csv"], .directory)]⟩
    ((∃ warnings, diary.check = .ok warnings) ∧ ∃ warnings, resuming.check = .ok warnings) ∧
      ((run diary entropy .empty fullMedium).2.2.2 = none ∧
        ∃ g, (diary.startGrid .empty).2 = .ok g ∧
          (run diary entropy .empty fullMedium).2.1.filterMap Event.done?
            = (g.advance entropy (3 - g.epoch.toNat)).2) ∧
      ((run resuming entropy blocked fullMedium).2.2.2 ≠ none ∧
        (run resuming entropy blocked fullMedium).1 = blocked) ∧
      (run diary entropy blocked fullMedium).2.2.2 ≠ none := by
  intro entropy resuming blocked
  have hcheck : diary.check = .ok [.windowSpansGrid 30 2 1] := by decide +kernel
  have hcheck' : resuming.check = .ok [.windowSpansGrid 30 2 1] := by decide +kernel
  obtain ⟨hfails, -, -, hcomputes⟩ := run_fails_early hcheck entropy .empty fullMedium
  obtain ⟨hfails', -, hkeeps', -⟩ := run_fails_early hcheck' entropy blocked fullMedium
  obtain ⟨hblocked, -, -, -⟩ := run_fails_early hcheck entropy blocked fullMedium
  have hresumes : ¬ diary.CannotResume .empty := by
    rintro ⟨path, ⟨hsome, -⟩ | ⟨hlatest, -⟩, -⟩
    · exact hsome rfl
    · exact absurd hlatest (by decide)
  have hopens : ¬ diary.CannotOpenTable .empty := by
    rintro ⟨-, -, hnone⟩
    exact hnone ⟨.empty, (["rows.csv"], ⟨[(["rows.csv"], .file [])]⟩), rfl, rfl⟩
  have hgone : resuming.CannotResume blocked := by
    refine ⟨"gone.bfsw", .named (by decide) (by decide), ?_⟩
    rintro ⟨bytes, g, hread, -⟩
    cases hread
  have hdirectory : diary.CannotOpenTable blocked := by
    refine ⟨rfl, by decide, ?_⟩
    rintro ⟨made, opened, hmade, hopened⟩
    have hmade' : blocked.makeParents "rows.csv" = (blocked, none) := rfl
    obtain rfl : made = blocked := congrArg Prod.fst (hmade.symm.trans hmade')
    cases hopened
  have hnone : (run diary entropy .empty fullMedium).2.2.2 = none :=
    not_not.mp (mt hfails.mp (not_or.mpr ⟨hresumes, hopens⟩))
  obtain ⟨g, first, hgrid, -, -, hdone⟩ := hcomputes hnone
  exact ⟨⟨⟨_, hcheck⟩, _, hcheck'⟩, ⟨hnone, g, hgrid, hdone⟩,
    ⟨hfails'.mpr (.inl hgone), hkeeps' hgone⟩, hblocked.mpr (.inr hdirectory)⟩

end Session

end TapeLife
