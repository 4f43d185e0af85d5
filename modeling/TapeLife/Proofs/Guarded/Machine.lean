import Mathlib.Data.Nat.Bitwise
import TapeLife.Guarded.Machine
import TapeLife.Proofs.Machine.Bracket
import TapeLife.Proofs.Machine.Rules

/-!
# Proofs/Guarded/Machine — a run on words and arrays never faults

    machine ──step──▸ machine ──step──▸ …          places on the tape by type
    core    ──step──▸ core    ──step──▸ …          plain words, every operation checked

The core of a machine (`Core.ofMachine`) takes the steps that the machine takes
(`Core.exists_step`): the machine's places are on its tape, a scan for a bracket counts no further
than the tape is long, and no counter gets ahead of the steps that were taken (`Tally.Within`).  So a
run on any budget that is a word ends without a fault and where the machine ends (`runAlone_eq`,
`runBeside_eq`).
-/

namespace TapeLife

open Instruction (openByte closeByte)

variable {n : Nat}

/-! ## Counters -/

/-- No counter is beyond a bound. -/
structure Tally.Within (t : Tally) (bound : Nat) : Prop where
  steps : t.steps ≤ bound
  ops : t.ops ≤ bound
  skipped : t.skipped ≤ bound
  channelWrites : t.channelWrites ≤ bound
  randomDraws : t.randomDraws ≤ bound

/-- **An instruction moves every counter by one at most.** -/
theorem Tally.Within.count {t : Tally} {bound : Nat} (h : t.Within bound) (m : Machine n) :
    (t.count m).Within (bound + 1) := by
  obtain ⟨hsteps, hops, hskipped, hwrites, hdraws⟩ := h
  constructor <;> simp only [Tally.count] <;> first | omega | (split <;> omega)

namespace Guarded

/-! ## Bytes of a tape -/

theorem read_toArray (memory : Vector UInt8 n) (i : Fin n) :
    read memory.toArray i = .ok (memory.get i) := by
  refine read_of_getElem? ?_
  simp [Vector.get]

theorem write_toArray (memory : Vector UInt8 n) (i : Fin n) (byte : UInt8) :
    write memory.toArray i byte = .ok (memory.set i byte i.isLt).toArray := by
  rw [write_of_lt (by simp)]
  simp [Array.setIfInBounds]

/-! ## Brackets -/

/-- **The count of open groups stays below the number of bytes that were scanned.** -/
theorem closingFrom_eq {bytes : List UInt8} {i depth : Nat} (hi : i + bytes.length < UInt64.size)
    (hdepth : depth + 1 + bytes.length < UInt64.size) :
    closingFrom bytes i (depth + 1) = .ok ((closeAt bytes depth).map (i + ·)) := by
  induction bytes generalizing i depth with
  | nil => rfl
  | cons b bytes ih =>
    rw [List.length_cons] at hi hdepth
    have hstep : (i + ·) ∘ (· + 1) = (i + 1 + ·) := by
      funext k
      simp
      omega
    have hnext : ∀ {d}, d + 1 + bytes.length < UInt64.size →
        closingFrom bytes (i + 1) (d + 1) = .ok ((closeAt bytes d).map (i + 1 + ·)) := fun hd =>
      ih (by omega) hd
    rw [closingFrom, add_of_lt (by omega), ok_bind, closeAt_cons]
    split_ifs
    · rw [add_of_lt (by omega), ok_bind, hnext (by omega), Option.map_map, hstep]
    · rw [sub_of_le (Nat.le_add_left 1 depth), ok_bind, Nat.add_sub_cancel]
      cases depth with
      | zero => rfl
      | succ depth => rw [if_neg (Nat.succ_ne_zero depth), hnext (by omega), Option.map_map, hstep]
    · rw [hnext (by omega), Option.map_map, hstep]

variable {memory : Vector UInt8 n}

theorem closing_eq (hsize : n < UInt64.size) (start : Fin n) :
    closing memory.toArray start = .ok ((closingPartner memory start).map Fin.val) := by
  have hplace : n - (n - (start + 1)) = start + 1 := by omega
  have hlength : (memory.toList.drop (start + 1)).length = n - (start + 1) := by simp
  rw [closing, add_of_lt (by omega), ok_bind, Vector.toList_toArray, closingPartner,
    map_val_closingFrom, hplace]
  exact closingFrom_eq (by omega) (by omega)

theorem openingBefore_eq {left depth : Nat} (h : left ≤ n)
    (hdepth : depth + 1 + left < UInt64.size) :
    openingBefore memory.toArray left (depth + 1)
      = .ok ((TapeLife.openingBefore memory left h depth).map Fin.val) := by
  induction left generalizing depth with
  | zero => rfl
  | succ left ih =>
    let here : Fin n := ⟨left, h⟩
    have hread : read memory.toArray left = .ok memory[here] := read_toArray memory here
    have hscan : ∀ d, TapeLife.openingBefore memory (left + 1) h d =
        if memory[here] = closeByte then TapeLife.openingBefore memory left (by omega) (d + 1)
        else if memory[here] = openByte then
          if d = 0 then some here else TapeLife.openingBefore memory left (by omega) (d - 1)
        else TapeLife.openingBefore memory left (by omega) d := fun d => by cases d <;> rfl
    rw [openingBefore, hread, ok_bind, hscan]
    split_ifs with hclose hopen hfirst
    · rw [add_of_lt (by omega), ok_bind, ih (by omega) (by omega)]
    · rw [hfirst, sub_of_le (Nat.le_refl 1)]
      rfl
    · obtain ⟨outer, rfl⟩ := Nat.exists_eq_succ_of_ne_zero hfirst
      rw [sub_of_le (Nat.le_add_left 1 _), ok_bind, Nat.add_sub_cancel, if_neg hfirst,
        ih (by omega) (by omega), Nat.succ_sub_one]
    · rw [ih (by omega) (by omega)]

theorem opening_eq (hsize : n < UInt64.size) (stop : Fin n) :
    opening memory.toArray stop = .ok ((openingPartner memory stop).map Fin.val) :=
  openingBefore_eq _ (by omega)

/-! ## Heads -/

/-- **A mask keeps a place on a tape whose length is a power of two.** -/
theorem and_mask {k : Nat} (hn : n = 2 ^ k) (i : Nat) : i &&& (n - 1) = i % n := by
  rw [hn, Nat.and_two_pow_sub_one_eq_mod]

theorem mask_right {k : Nat} (hn : n = 2 ^ k) (i : Fin n) :
    (i + 1) &&& (n - 1) = (Machine.rightOf i).val := and_mask hn _

/-- To the left of the first place the word wraps, and the mask leaves the last place. -/
theorem mask_left {k : Nat} (hn : n = 2 ^ k) (hsize : n < UInt64.size) (i : Fin n) :
    (UInt64.ofNat i - 1).toNat &&& (n - 1) = (Machine.leftOf i).val := by
  have hk : k ≤ 64 := by
    rw [hn] at hsize
    exact Nat.le_of_lt ((Nat.pow_lt_pow_iff_right (by decide)).mp hsize)
  have hdvd : n ∣ 2 ^ 64 := hn ▸ Nat.pow_dvd_pow 2 hk
  have hword : (UInt64.ofNat i - 1).toNat = (2 ^ 64 - 1 + i) % 2 ^ 64 := by
    rw [UInt64.toNat_sub, UInt64.toNat_ofNat_of_lt' (i.isLt.trans hsize)]
    rfl
  rw [and_mask hn, hword, Nat.mod_mod_of_dvd _ hdvd, Machine.val_leftOf]
  obtain ⟨turns, hturns⟩ := hdvd
  have hpos := i.pos
  split_ifs with hstart
  · obtain ⟨rest, rfl⟩ := Nat.exists_eq_succ_of_ne_zero (n := turns) (by rintro rfl; omega)
    have hlast : 2 ^ 64 - 1 + (i : Nat) = n - 1 + n * rest := by rw [hturns, Nat.mul_succ]; omega
    rw [hlast, Nat.add_mul_mod_self_left, Nat.mod_eq_of_lt (by omega)]
  · have hback : 2 ^ 64 - 1 + (i : Nat) = i - 1 + n * turns := by omega
    rw [hback, Nat.add_mul_mod_self_left, Nat.mod_eq_of_lt (by omega)]

end Guarded

/-! ## An instruction in two parts -/

namespace Machine

/-- The machine after what its instruction does, the place apart. -/
def acted (m : Machine n) : Machine n :=
  match m.instruction with
  | .head0Left => { m with head0 := leftOf m.head0 }
  | .head0Right => { m with head0 := rightOf m.head0 }
  | .head1Left => { m with head1 := leftOf m.head1 }
  | .head1Right => { m with head1 := rightOf m.head1 }
  | .increment => m.write m.head0 (m.datum + 1)
  | .decrement => m.write m.head0 (m.datum - 1)
  | .copyOut => m.write m.head1 m.datum
  | .copyIn => m.write m.head0 (m.memory.get m.head1)
  | .load => { m with acc := m.datum }
  | .store => m.write m.head0 m.acc
  | .random => { m with acc := m.stream.byte.1, stream := m.stream.byte.2 }
  | .loopStart | .loopEnd | .halt | .idle => m

/-- The place that the machine goes on from: its own, or the partner of a bracket that is taken. -/
def leaves? (m : Machine n) : Option (Fin n) :=
  match m.instruction with
  | .loopStart => if m.datum = 0 then closingPartner m.memory m.place else some m.place
  | .loopEnd => if m.datum ≠ 0 then openingPartner m.memory m.place else some m.place
  | _ => some m.place

/-- **A step does what the instruction does, and goes on from where it leads.** -/
theorem step_eq_proceed (m : Machine n) (hhalt : m.instruction ≠ .halt) :
    m.step = match m.leaves? with
      | some i => m.acted.proceed i
      | none => (m, some .unmatched) := by
  rw [step, leaves?, acted]
  cases hop : m.instruction with
  | halt => exact absurd hop hhalt
  | loopStart | loopEnd => by_cases hzero : m.datum = 0 <;> simp only [hzero, ne_eq] <;> rfl
  | _ => rfl

end Machine

/-! ## Steps -/

namespace Guarded.Core

/-- A machine and its tally, without the promise that its places are on the tape. -/
def ofMachine (m : Machine n) (t : Tally) : Core where
  tape := m.memory.toArray
  place := m.place
  head0 := m.head0
  head1 := m.head1
  acc := m.acc
  stream := m.stream
  tally := t

/-- The core holds what is left of a machine when its run is over. -/
structure Shows (core : Core) (m : Machine n) (t : Tally) : Prop where
  tape : core.tape = m.memory.toArray
  stream : core.stream = m.stream
  tally : core.tally = t

theorem shows_ofMachine (m : Machine n) (t : Tally) : (ofMachine m t).Shows m t := ⟨rfl, rfl, rfl⟩

variable {k bound : Nat} {t : Tally} (hn : n = 2 ^ k) (hsize : n < UInt64.size)
include hn hsize

/-- **What an instruction does is done without a fault.** -/
theorem act_eq (m : Machine n) (hskipped : t.skipped + 1 < UInt64.size)
    (hdraws : t.randomDraws + 1 < UInt64.size) (i : Nat) :
    act (n - 1) { ofMachine m t with place := i } m.instruction
      = .ok ({ ofMachine m.acted
                { t with
                  skipped := if m.instruction = .idle then t.skipped + 1 else t.skipped
                  randomDraws :=
                    if m.instruction = .random then t.randomDraws + 1 else t.randomDraws }
              with place := i }, m.target.map Fin.val) := by
  have hright : ∀ j : Fin n, add j 1 = .ok (j + 1) := fun j => add_of_lt (by omega)
  have hdatum : read m.memory.toArray m.head0 = .ok m.datum := read_toArray m.memory m.head0
  have hchannel := read_toArray m.memory m.head1
  rw [Machine.acted, Machine.target]
  cases hop : m.instruction <;>
    simp [act, store, ofMachine, add_of_lt hskipped, add_of_lt hdraws, hright, hdatum, hchannel,
      mask_right hn, mask_left hn hsize, write_toArray, Machine.write]

omit hn in
/-- The place that a bracket leads to is found without a fault. -/
theorem jump_eq (m : Machine n) (t : Tally) :
    (ofMachine m t).jump m.instruction = .ok (m.leaves?.map Fin.val) := by
  have hdatum : read m.memory.toArray m.head0 = .ok m.datum := read_toArray m.memory m.head0
  rw [Machine.leaves?]
  cases hop : m.instruction with
  | loopStart | loopEnd =>
    by_cases hzero : m.datum = 0 <;>
      simp [jump, ofMachine, hdatum, hzero, closing_eq hsize, opening_eq hsize]
  | _ => rfl

/-- **An instruction is counted without a fault**, and the next place may be behind the tape. -/
theorem finish_eq (m : Machine n) (ht : t.Within bound) (hbound : bound + 1 < UInt64.size)
    (hhalt : m.instruction ≠ .halt) (i : Fin n) :
    finish (n - 1) { ofMachine m { t with steps := t.steps + 1 } with place := i } m.instruction
      = .ok ({ ofMachine m.acted (t.count m) with place := i + 1 }, decide (i + 1 < n)) := by
  have hroom : ∀ c ≤ bound, c + 1 < UInt64.size := fun c hc => by omega
  have hops := add_of_lt (hroom _ ht.ops)
  have hwrites := add_of_lt (hroom _ ht.channelWrites)
  have hplace : add i 1 = .ok (i + 1) := add_of_lt (by omega)
  have hact := @act_eq n k { t with steps := t.steps + 1 } hn hsize m (hroom _ ht.skipped)
    (hroom _ ht.randomDraws) i
  have hwritten : (m.target.map Fin.val).any (tapeSize ≤ ·) = m.target.any (tapeSize ≤ ·.val) := by
    cases m.target <;> rfl
  rw [finish, hact, ok_bind]
  by_cases hidle : m.instruction = .idle <;>
    by_cases hneighbour : m.target.any (tapeSize ≤ ·.val) = true <;>
    simp [hidle, hwritten, hneighbour, countOp, countWrite, ofMachine, hops, hwrites, hplace,
      Tally.count, hhalt]

/-- **The core takes the step that the machine takes**, and stops where the machine stops. -/
theorem exists_step (m : Machine n) (ht : t.Within bound) (hbound : bound + 1 < UInt64.size) :
    ∃ core, (ofMachine m t).step (n - 1) = .ok (core, m.step.2.isNone) ∧
      core.Shows m.step.1 (t.count m) ∧
        (m.step.2 = none → core = ofMachine m.step.1 (t.count m)) := by
  have hroom : ∀ c ≤ bound, c + 1 < UInt64.size := fun c hc => by omega
  let begun : Tally := { t with steps := t.steps + 1 }
  have hbegun : (ofMachine m t).countStep = .ok (ofMachine m begun) := by
    rw [countStep, show add (ofMachine m t).tally.steps 1 = _ from add_of_lt (hroom _ ht.steps)]
    rfl
  have hread : read (ofMachine m begun).tape (ofMachine m begun).place
      = .ok (m.memory.get m.place) := read_toArray ..
  have hop : Instruction.ofByte (m.memory.get m.place) = m.instruction := rfl
  have hops : add (ofMachine m begun).tally.ops 1 = .ok (t.ops + 1) := add_of_lt (hroom _ ht.ops)
  rw [step, hbegun, ok_bind, hread, ok_bind, hop]
  by_cases hhalt : m.instruction = .halt
  · have hstep : m.step = (m, some .halted) := by rw [Machine.step, hhalt]
    refine ⟨ofMachine m (t.count m), ?_, ?_⟩
    · rw [if_pos hhalt, countOp, hops, hstep]
      simp [ofMachine, begun, Tally.count, Machine.target, hhalt]
    · rw [hstep]
      exact ⟨shows_ofMachine m _, fun hnone => by cases hnone⟩
  rw [if_neg hhalt, jump_eq hsize, ok_bind, m.step_eq_proceed hhalt]
  cases hleaves : m.leaves? with
  | none =>
    have htaken : m.instruction = .loopStart ∨ m.instruction = .loopEnd := by
      rw [Machine.leaves?] at hleaves
      split at hleaves
      · exact .inl ‹_›
      · exact .inr ‹_›
      · cases hleaves
    refine ⟨ofMachine m (t.count m), ?_, shows_ofMachine m _, fun hnone => by cases hnone⟩
    simp only [Option.map_none, countOp, hops, ok_bind, pure_eq_ok]
    obtain htaken | htaken := htaken <;>
      simp [ofMachine, begun, Tally.count, Machine.target, htaken]
  | some i =>
    refine ⟨{ ofMachine m.acted (t.count m) with place := i + 1 }, ?_, ?_⟩
    · have hfinish := finish_eq hn hsize m ht hbound hhalt i
      simp only [Option.map_some]
      rw [hfinish, Machine.proceed]
      split_ifs with hlt <;> simp [hlt]
    · simp only [Machine.proceed]
      split_ifs with hlt
      · exact ⟨⟨rfl, rfl, rfl⟩, fun _ => rfl⟩
      · exact ⟨⟨rfl, rfl, rfl⟩, fun hnone => by cases hnone⟩

/-- **Steps on a budget end without a fault**, where the machine ends. -/
theorem exists_steps (budget : Nat) (m : Machine n) (ht : t.Within bound)
    (hbound : bound + budget < UInt64.size) :
    ∃ core, steps (n - 1) budget (ofMachine m t) = .ok core ∧
      core.Shows (m.runFrom budget t).machine (m.runFrom budget t).tally := by
  induction budget generalizing m t bound with
  | zero => exact ⟨ofMachine m t, rfl, shows_ofMachine m t⟩
  | succ budget ih =>
    obtain ⟨core, hstep, hshows, hcore⟩ := exists_step hn hsize m ht (by omega)
    rw [steps, hstep, ok_bind, Machine.runFrom]
    rcases hwhy : m.step with ⟨m', _ | why⟩
    · rw [hwhy] at hcore
      rw [hcore rfl]
      exact ih m' (ht.count m) (by omega)
    · rw [hwhy] at hshows
      exact ⟨core, rfl, hshows⟩

end Guarded.Core

namespace Guarded

/-! ## Runs of cells -/

theorem tapeOf_own (joined : JoinedTape) : tapeOf joined.toArray 0 tapeSize = .ok joined.own := by
  have hcut : (joined.toArray.extract 0 tapeSize).size = tapeSize := by simp
  have hown : (⟨_, hcut⟩ : Tape) = joined.own := Vector.ext fun i hi => by simp [JoinedTape.own]
  rw [tapeOf, if_pos (by simp), dif_pos hcut, hown]

theorem tapeOf_neighbour (joined : JoinedTape) :
    tapeOf joined.toArray tapeSize (tapeSize + tapeSize) = .ok joined.neighbour := by
  have hcut : (joined.toArray.extract tapeSize (tapeSize + tapeSize)).size = tapeSize := by simp
  have hother : (⟨_, hcut⟩ : Tape) = joined.neighbour := Vector.ext fun i hi => by
    simp [JoinedTape.neighbour]
  rw [tapeOf, if_pos (by simp), dif_pos hcut, hother]

variable {budget : Nat} (hbudget : budget < UInt64.size)
include hbudget

/-- A run on a tape whose length is a power of two ends without a fault. -/
theorem exists_run {k : Nat} (hn : n = 2 ^ k) (hsize : n < UInt64.size) (memory : Vector UInt8 n)
    (head1 : Fin n) (stream : Stream) :
    ∃ core, Core.run budget memory.toArray head1 stream = .ok core ∧
      core.Shows ((Machine.start memory head1 stream).run budget).machine
        ((Machine.start memory head1 stream).run budget).tally := by
  have hmask : (head1 : Nat) &&& (n - 1) = head1 := by
    rw [and_mask hn, Nat.mod_eq_of_lt head1.isLt]
  have hstart : ({} : Tally).Within 0 := ⟨le_rfl, le_rfl, le_rfl, le_rfl, le_rfl⟩
  obtain ⟨core, hsteps, hshows⟩ := Core.exists_steps hn hsize budget
    (Machine.start memory head1 stream) hstart (by omega)
  refine ⟨core, ?_, hshows⟩
  rw [Core.run, Vector.size_toArray, sub_of_le head1.pos, ok_bind, hmask]
  exact hsteps

/-- **A cell runs alone without a fault**, and as without bounds. -/
theorem runAlone_eq (cell : Cell) : runAlone budget cell = .ok (cell.runAlone budget) := by
  obtain ⟨core, hrun, htape, hstream, htally⟩ := exists_run hbudget (n := tapeSize) (k := 6) rfl
    (by decide) cell.tape 0 cell.stream
  have hcut : tapeOf core.tape 0 core.tape.size
      = .ok (cell.machineAlone.run budget).machine.memory := by
    rw [htape]
    simp [tapeOf, Cell.machineAlone]
  rw [runAlone, show Core.run budget cell.tape.toArray 0 cell.stream = .ok core from hrun, ok_bind,
    hcut, ok_bind, hstream, htally]
  rfl

/-- **A cell runs beside a neighbour without a fault**, and as without bounds. -/
theorem runBeside_eq (cell : Cell) (neighbour : Tape) :
    runBeside budget cell neighbour = .ok (cell.runBeside budget neighbour) := by
  obtain ⟨core, hrun, htape, hstream, htally⟩ := exists_run hbudget (n := tapeSize + tapeSize)
    (k := 7) rfl (by decide) (cell.tape ++ neighbour) ⟨tapeSize, by decide⟩ cell.stream
  rw [Vector.toArray_append] at hrun
  rw [runBeside, show Core.run budget _ tapeSize cell.stream = .ok core from hrun, ok_bind, htape,
    tapeOf_own, ok_bind, Vector.size_toArray, tapeOf_neighbour, ok_bind, hstream, htally]
  rfl

end Guarded

end TapeLife
