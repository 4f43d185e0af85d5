import TapeLife.Mutation
import TapeLife.Machine.Run

/-!
# Proofs/Machine/Draws — a run draws what it counts

    stream ──run──▸ stream after as many draws as the tally says ──mutate──▸ 64 draws later

Of all instructions one draws, and it draws once (`Machine.stream_step`), so the stream at the end
of a run is the stream at its start after the draws that the tally counts (`Machine.stream_run`).
A cell that runs, alone or beside a neighbour, uses its own stream and hands it on
(`Cell.stream_runAlone`, `Cell.stream_runBeside`); a mutation draws once for every byte, whatever
the bytes are (`Cell.stream_mutate`).
-/

namespace TapeLife

variable {n : Nat}

namespace Machine

theorem stream_proceed (m : Machine n) (i : Fin n) : (m.proceed i).1.stream = m.stream := by
  rw [proceed]
  split <;> rfl

/-- **One instruction draws, and it draws once.** -/
theorem stream_step (m : Machine n) :
    m.step.1.stream = if m.instruction = .random then m.stream.step else m.stream := by
  rw [step]
  cases m.instruction with
  | random => exact stream_proceed _ _
  | halt => rfl
  | loopStart =>
    by_cases hdatum : m.datum = 0
    · simp only [if_pos hdatum]
      cases closingPartner m.memory m.place with
      | none => rfl
      | some close => exact stream_proceed _ _
    · simp only [if_neg hdatum]
      exact stream_proceed _ _
  | loopEnd =>
    by_cases hdatum : m.datum = 0
    · simp only [hdatum, ne_eq, not_true_eq_false, if_false]
      exact stream_proceed _ _
    · simp only [ne_eq, hdatum, not_false_eq_true, if_true]
      cases openingPartner m.memory m.place with
      | none => rfl
      | some start => exact stream_proceed _ _
  | _ => exact stream_proceed _ _

/-- A run goes on with the stream that its first step leaves, and counts that step. -/
theorem stream_runFrom (budget : Nat) (m : Machine n) (t : Tally) :
    ∃ draws, (m.runFrom budget t).tally.randomDraws = t.randomDraws + draws ∧
      (m.runFrom budget t).machine.stream = m.stream.advance draws := by
  induction budget generalizing m t with
  | zero => exact ⟨0, rfl, rfl⟩
  | succ budget ih =>
    obtain ⟨first, hcount, hstream⟩ : ∃ first,
        (t.count m).randomDraws = t.randomDraws + first ∧
          m.step.1.stream = m.stream.advance first := by
      rw [stream_step]
      by_cases hop : m.instruction = .random
      · exact ⟨1, by simp only [Tally.count, if_pos hop], by rw [if_pos hop]; rfl⟩
      · exact ⟨0, by simp only [Tally.count, if_neg hop, Nat.add_zero], by rw [if_neg hop]; rfl⟩
    rcases hstep : m.step with ⟨m', _ | why⟩
    · obtain ⟨more, hcount', hstream'⟩ := ih m' (t.count m)
      rw [hstep] at hstream
      refine ⟨first + more, ?_, ?_⟩
      · rw [runFrom, hstep]
        exact hcount'.trans (by rw [hcount, Nat.add_assoc])
      · rw [runFrom, hstep, Stream.advance_add, ← hstream]
        exact hstream'
    · refine ⟨first, ?_, ?_⟩
      · rw [runFrom, hstep]
        exact hcount
      · rw [runFrom, hstep, ← hstream, hstep]

/-- **A run draws as often as its tally says.** -/
theorem stream_run (budget : Nat) (m : Machine n) :
    (m.run budget).machine.stream = m.stream.advance (m.run budget).tally.randomDraws := by
  obtain ⟨draws, hcount, hstream⟩ := stream_runFrom budget m {}
  rw [Nat.zero_add] at hcount
  rw [run, hcount, hstream]

end Machine

namespace Cell

theorem stream_runAlone (budget : Nat) (cell : Cell) :
    (cell.runAlone budget).1.stream
      = cell.stream.advance (cell.runAlone budget).2.randomDraws :=
  Machine.stream_run budget cell.machineAlone

theorem stream_runBeside (budget : Nat) (cell : Cell) (neighbour : Tape) :
    (cell.runBeside budget neighbour).1.stream
      = cell.stream.advance (cell.runBeside budget neighbour).2.2.randomDraws :=
  Machine.stream_run budget (cell.machineBeside neighbour)

/-- **A mutation draws once for every byte of the tape.** -/
theorem stream_mutate (threshold : Nat) (cell : Cell) :
    (cell.mutate threshold).1.stream = cell.stream.advance tapeSize := by
  have hbytes := TapeLife.stream_mutate threshold cell.tape.toList cell.stream
  rwa [Vector.length_toList] at hbytes

end Cell

end TapeLife
