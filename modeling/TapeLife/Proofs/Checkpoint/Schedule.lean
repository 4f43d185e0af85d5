import Mathlib.Logic.Relation
import TapeLife.Proofs.Checkpoint.Queue

/-!
# Proofs/Checkpoint/Schedule — a worker in the background writes what would be written in place

    working ──close──▸ closing ──halt──▸ halted ──join──▸ shut      (──leave──▸ left)

Whatever the run and the worker do in turns, the snapshots that are written are the first ones that
were saved, in order, and all others are on their way (`Exchange.Keeps`): a step writes the first
snapshot that is owed, or owes what was owed before (`Exchange.owed_step`).  Nothing is owed when
a shutdown has returned.  No step can be taken for ever (`Exchange.load_lt_of_step`), and only a run
that is over takes none (`Exchange.Phase.exists_step`), so every run comes to that point
(`Exchange.in_background_eq_in_place`).
-/

namespace TapeLife

open Relation (ReflTransGen)

/-! ## Writing in place -/

/-- **A write that fails does not stop the others**: they are done on the files that it leaves. -/
theorem writeInPlace_append (tree : FileTree) (first rest : List Snapshot) :
    writeInPlace tree (first ++ rest) =
      ((writeInPlace (writeInPlace tree first).1 rest).1,
        (writeInPlace tree first).2 ++ (writeInPlace (writeInPlace tree first).1 rest).2) := by
  induction first generalizing tree with
  | nil => rfl
  | cons s first ih => simp only [List.cons_append, writeInPlace, ih]

/-- What shutdowns return, if some writes failed. -/
def answersTo (failed : Nat) : (asked : Nat) → List Nat
  | 0 => []
  | again + 1 => failed :: List.replicate again 0

/-- The snapshot of a message. -/
def Message.snapshot? : Message → Option Snapshot
  | .save s => some s
  | .stop => none

/-- The snapshot that the worker has taken and not yet written. -/
def Worker.current : Worker → List Snapshot
  | .writing s => [s]
  | .receiving | .stopped => []

/-- A bound for the steps in which the run gives the worker up. -/
def Handle.steps : Handle → Nat
  | .held => 4
  | .joining => 1
  | .released => 0

namespace Exchange

variable {e e' : Exchange} {tree : FileTree} {saved : List Snapshot}

/-! ## What a step does -/

theorem post_eq (h : e.worker ≠ .stopped) (message : Message) :
    e.post message = { e with channel := e.channel ++ [message] } := by
  rw [post]
  split
  · contradiction
  · rfl
  · rfl

theorem post_of_stopped (h : e.worker = .stopped) (message : Message) : e.post message = e := by
  rw [post, h]

/-- Where the two sides are with each other. -/
inductive Phase (e : Exchange) : Prop
  | working {waiting : List Snapshot} (hhandle : e.handle = .held) (hworker : e.worker ≠ .stopped)
      (hchannel : e.channel = waiting.map .save) (hanswers : e.answers = [])
  | closing {waiting : List Snapshot} (hhandle : e.handle = .joining)
      (hworker : e.worker ≠ .stopped) (hchannel : e.channel = waiting.map .save ++ [.stop])
      (hanswers : e.answers = []) (htodo : e.todo = [] ∨ ∃ rest, e.todo = .shutdown :: rest)
  | halted (hhandle : e.handle = .joining) (hworker : e.worker = .stopped)
      (hchannel : e.channel = []) (hanswers : e.answers = [])
      (htodo : e.todo = [] ∨ ∃ rest, e.todo = .shutdown :: rest)
  | left (hhandle : e.handle = .released) (hworker : e.worker = .stopped)
      (hchannel : e.channel = []) (hanswers : e.answers = []) (htodo : e.todo = [])
  | shut (hhandle : e.handle = .released) (hworker : e.worker = .stopped)
      (hchannel : e.channel = [])
      (hanswers : ∃ again, e.answers = e.failures :: List.replicate again 0)

/-- The message to stop is sent once, and nothing after it. -/
theorem Phase.of_stop (h : Phase e) {rest : List Message} (hfirst : e.channel = .stop :: rest) :
    e.handle = .joining ∧ rest = [] ∧ e.answers = [] ∧
      (e.todo = [] ∨ ∃ rest, e.todo = .shutdown :: rest) := by
  cases h with
  | @working waiting hhandle hworker hchannel hanswers =>
    cases waiting <;> rw [hchannel] at hfirst <;> cases hfirst
  | @closing waiting hhandle hworker hchannel hanswers htodo =>
    obtain _ | ⟨first, waiting⟩ := waiting
    · exact ⟨hhandle, (List.cons.inj (hchannel.symm.trans hfirst)).2.symm, hanswers, htodo⟩
    · rw [hchannel] at hfirst
      cases hfirst
  | halted | left | shut => simp_all

/-- A shutdown has returned only if the worker is given up. -/
theorem Phase.released_of_answered (h : Phase e) (hanswered : e.answers ≠ []) :
    e.handle = .released := by
  cases h with
  | left hhandle | shut hhandle => exact hhandle
  | working | closing | halted => contradiction

/-- **A step leads from one phase to the same or the next one.** -/
theorem Phase.step (h : Phase e) (hstep : Step e e') : Phase e' := by
  cases hstep with
  | change htodo =>
    cases h with
    | working hhandle hworker hchannel hanswers => exact .working hhandle hworker hchannel hanswers
    | shut hhandle hworker hchannel hanswers => exact .shut hhandle hworker hchannel hanswers
    | closing | halted | left => simp_all
  | @save path rest htodo =>
    cases h with
    | @working waiting hhandle hworker hchannel hanswers =>
      have hsent : e.channel ++ [.save (e.grid.snapshot path)]
          = (waiting ++ [e.grid.snapshot path]).map .save := by simp [hchannel]
      rw [post_eq hworker]
      exact .working hhandle hworker hsent hanswers
    | shut hhandle hworker hchannel hanswers =>
      rw [post_of_stopped hworker]
      exact .shut hhandle hworker hchannel hanswers
    | closing | halted | left => simp_all
  | close htodo hheld =>
    cases h with
    | working hhandle hworker hchannel hanswers =>
      rw [post_eq hworker]
      exact .closing rfl hworker (congrArg (· ++ [.stop]) hchannel) hanswers htodo
    | closing | halted | left | shut => simp_all
  | join htodo hjoining hstopped =>
    cases h with
    | halted hhandle hworker hchannel hanswers =>
      refine .shut rfl hworker hchannel ⟨0, ?_⟩
      rw [hanswers]
      rfl
    | working | closing | left | shut => simp_all
  | leave htodo hjoining hstopped =>
    cases h with
    | halted hhandle hworker hchannel hanswers => exact .left rfl hworker hchannel hanswers htodo
    | working | closing | left | shut => simp_all
  | again htodo hdone =>
    cases h with
    | shut hhandle hworker hchannel hanswers =>
      obtain ⟨again, hagain⟩ := hanswers
      rw [post_of_stopped hworker]
      refine .shut hhandle hworker hchannel ⟨again + 1, ?_⟩
      rw [hagain, List.cons_append, ← List.replicate_succ']
      rfl
    | working | closing | halted | left => simp_all
  | @receive s rest hfirst hreceiving =>
    cases h with
    | @working waiting hhandle hworker hchannel hanswers =>
      obtain ⟨-, waiting, -, -, hrest⟩ := List.map_eq_cons_iff.mp (hchannel.symm.trans hfirst)
      exact .working hhandle nofun hrest.symm hanswers
    | @closing waiting hhandle hworker hchannel hanswers htodo =>
      obtain _ | ⟨first, waiting⟩ := waiting
      · rw [hchannel] at hfirst
        cases hfirst
      · have hrest := (List.cons.inj (hchannel.symm.trans hfirst)).2
        exact .closing hhandle nofun hrest.symm hanswers htodo
    | halted | left | shut => simp_all
  | write hwriting =>
    cases h with
    | working hhandle hworker hchannel hanswers => exact .working hhandle nofun hchannel hanswers
    | closing hhandle hworker hchannel hanswers htodo =>
      exact .closing hhandle nofun hchannel hanswers htodo
    | halted | left | shut => simp_all
  | halt hfirst hreceiving =>
    obtain ⟨hhandle, -, hanswers, htodo⟩ := h.of_stop hfirst
    exact .halted hhandle rfl rfl hanswers htodo

/-- The snapshots that are still to be written: the worker's, those in the channel, and those that
the run will send. -/
def owed (e : Exchange) : List Snapshot :=
  e.worker.current ++ e.channel.filterMap Message.snapshot? ++
    (if e.handle = .held then snapshotsOf e.grid e.todo else [])

/-- **A step writes the first snapshot that is owed, or owes what was owed before.** -/
theorem owed_step (h : Phase e) (hstep : Step e e') :
    (e'.owed = e.owed ∧ e'.tree = e.tree ∧ e'.reports = e.reports) ∨
      ∃ s, e.owed = s :: e'.owed ∧ e'.tree = (WriteQueue.write e.tree s).1 ∧
        e'.reports = e.reports ++ [(WriteQueue.write e.tree s).2] := by
  cases hstep with
  | change htodo =>
    refine .inl ⟨?_, rfl, rfl⟩
    simp only [owed, htodo, snapshotsOf]
  | @save path rest htodo =>
    cases h with
    | working hhandle hworker hchannel hanswers =>
      rw [post_eq hworker]
      refine .inl ⟨?_, rfl, rfl⟩
      simp [owed, hhandle, htodo, snapshotsOf, Message.snapshot?]
    | shut hhandle hworker hchannel hanswers =>
      rw [post_of_stopped hworker]
      refine .inl ⟨?_, rfl, rfl⟩
      simp [owed, hhandle]
    | closing | halted | left => simp_all
  | close htodo hheld =>
    cases h with
    | working hhandle hworker hchannel hanswers =>
      have hnone : snapshotsOf e.grid e.todo = [] := by
        obtain htodo | ⟨rest, htodo⟩ := htodo <;> rw [htodo, snapshotsOf]
      rw [post_eq hworker]
      refine .inl ⟨?_, rfl, rfl⟩
      simp [owed, hhandle, hnone, Message.snapshot?]
    | closing | halted | left | shut => simp_all
  | join htodo hjoining hstopped => exact .inl ⟨by simp [owed, hjoining], rfl, rfl⟩
  | leave htodo hjoining hstopped => exact .inl ⟨by simp [owed, hjoining], rfl, rfl⟩
  | again htodo hdone =>
    cases h with
    | shut hhandle hworker hchannel hanswers =>
      rw [post_of_stopped hworker]
      exact .inl ⟨by simp [owed, hhandle], rfl, rfl⟩
    | working | closing | halted | left => simp_all
  | receive hfirst hreceiving =>
    exact .inl ⟨by simp [owed, hfirst, hreceiving, Worker.current, Message.snapshot?], rfl, rfl⟩
  | @write s hwriting => exact .inr ⟨s, by simp [owed, hwriting, Worker.current], rfl, rfl⟩
  | halt hfirst hreceiving =>
    obtain ⟨hhandle, rfl, -⟩ := h.of_stop hfirst
    exact .inl ⟨by simp [owed, hhandle, hfirst, hreceiving, Worker.current, Message.snapshot?],
      rfl, rfl⟩

/-! ## Runs come to an end -/

/-- A bound for the steps that are left: an errand is a step and may send a message, and a message
is two steps of the worker. -/
def load (e : Exchange) : Nat :=
  3 * e.todo.length + 2 * e.channel.length + e.worker.current.length + e.handle.steps

theorem exists_post_eq (e : Exchange) (message : Message) :
    ∃ channel, e.post message = { e with channel } ∧ channel.length ≤ e.channel.length + 1 := by
  by_cases hworker : e.worker = .stopped
  · exact ⟨e.channel, post_of_stopped hworker message, Nat.le_add_right ..⟩
  · exact ⟨e.channel ++ [message], post_eq hworker message, by simp⟩

/-- **Every step leaves less to do.** -/
theorem load_lt_of_step (hstep : Step e e') : e'.load < e.load := by
  cases hstep with
  | change htodo =>
    simp only [load, htodo, List.length_cons]
    omega
  | @save path rest htodo =>
    obtain ⟨channel, hpost, hle⟩ := exists_post_eq e (.save (e.grid.snapshot path))
    simp only [load, hpost, htodo, List.length_cons]
    omega
  | close htodo hheld =>
    obtain ⟨channel, hpost, hle⟩ := exists_post_eq e .stop
    simp only [load, hpost, hheld, Handle.steps]
    omega
  | join htodo hjoining hstopped =>
    simp only [load, htodo, hjoining, Handle.steps, List.length_cons]
    omega
  | leave htodo hjoining hstopped =>
    simp only [load, hjoining, Handle.steps]
    omega
  | again htodo hdone =>
    obtain ⟨channel, hpost, hle⟩ := exists_post_eq e .stop
    simp only [load, hpost, htodo, List.length_cons]
    omega
  | receive hfirst hreceiving =>
    simp only [load, hfirst, hreceiving, Worker.current, List.length_cons, List.length_nil]
    omega
  | write hwriting =>
    simp only [load, hwriting, Worker.current, List.length_cons, List.length_nil]
    omega
  | halt hfirst hreceiving =>
    simp only [load, hfirst, hreceiving, Worker.current, List.length_cons, List.length_nil]
    omega

/-- No run goes on for ever. -/
theorem wellFounded_step : WellFounded fun later earlier => Step earlier later :=
  Subrelation.wf load_lt_of_step (measure load).wf

/-- **Only a run that is over takes no step.** -/
theorem Phase.exists_step (h : Phase e) (hopen : ¬ e.Finished) : ∃ e', Step e e' := by
  cases h with
  | working hhandle hworker hchannel hanswers =>
    rcases htodo : e.todo with _ | ⟨_ | _ | _, rest⟩
    · exact ⟨_, .close (.inl htodo) hhandle⟩
    · exact ⟨_, .change htodo⟩
    · exact ⟨_, .save htodo⟩
    · exact ⟨_, .close (.inr ⟨rest, htodo⟩) hhandle⟩
  | @closing waiting hhandle hworker hchannel hanswers htodo =>
    rcases hat : e.worker with _ | s | _
    · cases waiting with
      | nil => exact ⟨_, .halt hchannel hat⟩
      | cons s waiting => exact ⟨_, .receive hchannel hat⟩
    · exact ⟨_, .write hat⟩
    · exact absurd hat hworker
  | halted hhandle hworker hchannel hanswers htodo =>
    obtain htodo | ⟨rest, htodo⟩ := htodo
    · exact ⟨_, .leave htodo hhandle hworker⟩
    · exact ⟨_, .join htodo hhandle hworker⟩
  | left hhandle hworker hchannel hanswers htodo => exact absurd ⟨htodo, hhandle⟩ hopen
  | shut hhandle hworker hchannel hanswers =>
    rcases htodo : e.todo with _ | ⟨_ | _ | _, rest⟩
    · exact absurd ⟨htodo, hhandle⟩ hopen
    · exact ⟨_, .change htodo⟩
    · exact ⟨_, .save htodo⟩
    · exact ⟨_, .again htodo hhandle⟩

theorem Phase.not_step (h : Phase e) (hover : e.Finished) : ¬ Step e e' := by
  obtain ⟨htodo, hhandle⟩ := hover
  intro hstep
  cases h with
  | left | shut => cases hstep <;> simp_all
  | working | closing | halted => simp_all

/-! ## Whole runs -/

/-- What is so at every moment of a run: the snapshots that were saved are those that were written,
in order, and those that are owed. -/
structure Keeps (tree : FileTree) (saved : List Snapshot) (asked : Nat) (e : Exchange) : Prop where
  phase : Phase e
  written : ∃ done, saved = done ++ e.owed ∧ writeInPlace tree done = (e.tree, e.reports)
  asked : e.answers.length + e.todo.countP Errand.isShutdown = asked

variable {asked : Nat}

theorem keeps_start (g : Grid) (tree : FileTree) (errands : List Errand) :
    Keeps tree (snapshotsOf g errands) (errands.countP Errand.isShutdown)
      (start g tree errands) where
  phase := .working rfl nofun (List.map_nil).symm rfl
  written := ⟨[], rfl, rfl⟩
  asked := Nat.zero_add _

theorem asked_step (hstep : Step e e') :
    e'.answers.length + e'.todo.countP Errand.isShutdown
      = e.answers.length + e.todo.countP Errand.isShutdown := by
  have hpost : ∀ message,
      (e.post message).answers = e.answers ∧ (e.post message).todo = e.todo := by
    intro message
    obtain ⟨channel, hpost, -⟩ := exists_post_eq e message
    simp [hpost]
  cases hstep with
  | change htodo | save htodo => simp [htodo, hpost, Errand.isShutdown]
  | join htodo | again htodo =>
    simp only [htodo, List.length_append, List.length_singleton, List.countP_cons,
      Errand.isShutdown, if_true]
    omega
  | close => simp [hpost]
  | leave | receive | write | halt => rfl

theorem Keeps.step (h : Keeps tree saved asked e) (hstep : Step e e') :
    Keeps tree saved asked e' where
  phase := h.phase.step hstep
  written := by
    obtain ⟨done, hsaved, hwritten⟩ := h.written
    obtain ⟨howed, htree, hreports⟩ | ⟨s, howed, htree, hreports⟩ := owed_step h.phase hstep
    · exact ⟨done, by rw [howed, hsaved], by rw [htree, hreports, hwritten]⟩
    · refine ⟨done ++ [s], by rw [hsaved, howed, List.append_assoc]; rfl, ?_⟩
      rw [writeInPlace_append, hwritten, htree, hreports]
      rfl
  asked := (asked_step hstep).trans h.asked

theorem Keeps.reaches (h : Keeps tree saved asked e) (hsteps : ReflTransGen Step e e') :
    Keeps tree saved asked e' := by
  induction hsteps with
  | refl => exact h
  | tail _ hstep ih => exact ih.step hstep

/-- **Nothing is owed when the worker is given up.** -/
theorem Keeps.settled (h : Keeps tree saved asked e) (hreleased : e.handle = .released) :
    writeInPlace tree saved = (e.tree, e.reports) := by
  obtain ⟨done, hsaved, hwritten⟩ := h.written
  have hnone : e.owed = [] := by
    cases h.phase with
    | left hhandle hworker hchannel | shut hhandle hworker hchannel =>
      simp [owed, hhandle, hworker, hchannel, Worker.current]
    | working | closing | halted => simp_all
  rw [hsaved, hnone, List.append_nil, hwritten]

/-- **The first answer is the number of writes that failed**, and later ones are zero. -/
theorem Keeps.answers_eq (h : Keeps tree saved asked e) : e.answers
    = answersTo ((writeInPlace tree saved).2.countP (·.failure.isSome)) e.answers.length := by
  cases h.phase with
  | shut hhandle hworker hchannel hanswers =>
    obtain ⟨again, hagain⟩ := hanswers
    rw [hagain, h.settled hhandle, List.length_cons, List.length_replicate]
    rfl
  | working hhandle hworker hchannel hanswers | closing hhandle hworker hchannel hanswers
  | halted hhandle hworker hchannel hanswers | left hhandle hworker hchannel hanswers =>
    rw [hanswers]
    rfl

/-- **Every run comes to its end**, whoever takes the next step each time. -/
theorem Keeps.exists_finished (h : Keeps tree saved asked e) :
    ∃ last, ReflTransGen Step e last ∧ last.Finished := by
  induction e using wellFounded_step.induction with
  | _ e ih =>
    by_cases hover : e.Finished
    · exact ⟨e, .refl, hover⟩
    · obtain ⟨next, hstep⟩ := h.phase.exists_step hover
      obtain ⟨last, hsteps, hover⟩ := ih next hstep (h.step hstep)
      exact ⟨last, .head hstep hsteps, hover⟩

end Exchange

/-! ## The queue alone -/

namespace WriteQueue

variable {waiting : List Snapshot} {reports : List WriteReport}

/-- A queue that is closed does nothing more. -/
theorem attend_closed (g : Grid) (tree : FileTree) (errands : List Errand) :
    attend ⟨waiting, reports, true⟩ g tree errands
      = (tree, List.replicate (errands.countP Errand.isShutdown) 0) := by
  induction errands generalizing g with
  | nil => rfl
  | cons errand rest ih =>
    cases errand with
    | change change => exact ih _
    | save path => exact ih _
    | shutdown =>
      rw [attend, shutdown]
      simp only [if_true, ih, List.countP_cons, Errand.isShutdown, List.replicate_succ]

/-- **The queue alone writes in place as well**, and answers in the same way. -/
theorem attend_open (g : Grid) (tree : FileTree) (errands : List Errand) :
    attend ⟨waiting, reports, false⟩ g tree errands =
      let written := writeInPlace tree (waiting ++ snapshotsOf g errands)
      (written.1, answersTo ((reports ++ written.2).countP (·.failure.isSome))
        (errands.countP Errand.isShutdown)) := by
  induction errands generalizing g waiting with
  | nil =>
    rw [attend, fst_shutdown, snapshotsOf, List.append_nil]
    rfl
  | cons errand rest ih =>
    cases errand with
    | change change => exact ih _
    | save path =>
      have hsend : send ⟨waiting, reports, false⟩ (g.snapshot path)
          = ⟨waiting ++ [g.snapshot path], reports, false⟩ := rfl
      rw [attend, hsend, ih, List.append_assoc]
      rfl
    | shutdown =>
      have hcount : (Errand.shutdown :: rest).countP Errand.isShutdown
          = rest.countP Errand.isShutdown + 1 := List.countP_cons_of_pos rfl
      rw [attend, shutdown, hcount, snapshotsOf, List.append_nil]
      simp [drain_eq, attend_closed, failures, answersTo]

end WriteQueue

namespace Exchange

/-- **The worker in the background writes what would be written in place.**  Whatever errands a run
has with a soup, and however its steps and the worker's interleave, no run goes on for ever and none
is stuck before its end.  At every moment the files are as if the first snapshots had been written
in place, each of the soup as it was when it was saved; from the moment that a shutdown returns or
the run is over, as if all had been that were saved before the first shutdown, and no others.  The
first shutdown returns how many of these writes fail, and any later one zero.  After a write that
fails the others go on, on the files that it leaves.  The queue alone, worked off only when it is
closed, leaves the same files and gives the same answers. -/
theorem in_background_eq_in_place (g : Grid) (tree : FileTree) (errands : List Errand) :
    let saved := snapshotsOf g errands
    let written := writeInPlace tree saved
    (WellFounded fun later earlier => Step earlier later) ∧
    (∀ e, ReflTransGen Step (start g tree errands) e →
      ((∀ next, ¬ Step e next) ↔ e.Finished) ∧
      (∃ last, ReflTransGen Step e last ∧ last.Finished) ∧
      (∃ done, done <+: saved ∧ writeInPlace tree done = (e.tree, e.reports)) ∧
      (e.answers ≠ [] ∨ e.Finished → (e.tree, e.reports) = written) ∧
      e.answers = answersTo (written.2.countP (·.failure.isSome)) e.answers.length ∧
      (e.Finished → e.answers.length = errands.countP Errand.isShutdown ∧
        WriteQueue.fresh.attend g tree errands = (e.tree, e.answers))) ∧
    ∀ before s after, saved = before ++ s :: after →
      let first := writeInPlace tree before
      let hit := WriteQueue.write first.1 s
      let last := writeInPlace hit.1 after
      written = (last.1, first.2 ++ hit.2 :: last.2) := by
  intro saved written
  refine ⟨wellFounded_step, fun e hsteps => ?_, fun before s after hsaved => ?_⟩
  · have h : Keeps tree saved (errands.countP Errand.isShutdown) e :=
      (keeps_start g tree errands).reaches hsteps
    have hanswered : e.Finished → e.answers.length = errands.countP Errand.isShutdown := by
      intro hover
      have hasked := h.asked
      rwa [hover.1, List.countP_nil, Nat.add_zero] at hasked
    refine ⟨⟨fun hstuck => ?_, fun hover next => h.phase.not_step hover⟩, h.exists_finished, ?_, ?_,
      h.answers_eq, fun hover => ⟨hanswered hover, ?_⟩⟩
    · by_contra hopen
      obtain ⟨next, hstep⟩ := h.phase.exists_step hopen
      exact hstuck next hstep
    · obtain ⟨done, hsaved, hwritten⟩ := h.written
      exact ⟨done, ⟨e.owed, hsaved.symm⟩, hwritten⟩
    · rintro (hanswered | hover)
      · exact (h.settled (h.phase.released_of_answered hanswered)).symm
      · exact (h.settled hover.2).symm
    · rw [h.answers_eq, hanswered hover, WriteQueue.fresh, WriteQueue.attend_open]
      exact congrArg (·, _) (congrArg Prod.fst (h.settled hover.2))
  · intro first hit last
    change writeInPlace tree saved = _
    rw [hsaved, writeInPlace_append]
    rfl

-- a file stands where the second snapshot wants a directory, and the last snapshot comes too late
example : (WriteQueue.fresh.attend
    (Grid.grow { Params.standard with width := 1, height := 1 } .zero) FileTree.empty
    [.save "a", .save "a/b", .change (.setBuiltIn 0 0 1), .save "c", .shutdown, .save "d",
      .shutdown]).2 = [1, 0] := by decide +kernel

end Exchange

end TapeLife
