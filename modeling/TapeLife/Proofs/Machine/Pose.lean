import Mathlib.Data.Nat.Init
import TapeLife.Proofs.Machine.Rules

/-!
# Proofs/Machine/Pose — following a machine whose stream does not matter

A `Pose` is a machine without its accumulator and its stream, and with plain numbers for places.
`Pose.LeadsTo` is one step between poses, with one lemma for every way to go that a program without
arithmetic takes; `Pose.Settles` says what a run leaves behind, whatever its budget is from some
number of steps on.  A program is then followed backwards: from the pose where nothing changes any
more (`settles_of_rest`) one step at a time (`Settles.step`) to where it starts.
-/

namespace TapeLife

variable {n : Nat}

/-- The bytes from one place up to another are blank. -/
def BlankFrom (memory : Vector UInt8 n) (first last : Nat) : Prop :=
  ∀ i, first ≤ i → i < last → memory[i]? = some 0

/-- Where everything stands on a machine, the accumulator and the stream apart. -/
structure Pose (n : Nat) where
  memory : Vector UInt8 n
  place : Nat
  head0 : Nat
  head1 : Nat

namespace Machine

variable {m m' : Machine n}

/-- The pose of a machine. -/
def pose (m : Machine n) : Pose n := ⟨m.memory, m.place, m.head0, m.head1⟩

theorem proceed_of_lt {i : Fin n} (h : i.val + 1 < n) :
    m.proceed i = ({ m with place := ⟨i.val + 1, h⟩ }, none) := dif_pos h

/-! ## Runs step by step -/

/-- What was counted before has no influence on where a run ends. -/
theorem machine_runFrom (budget : Nat) (m : Machine n) (t : Tally) :
    (m.runFrom budget t).machine = (m.run budget).machine := by
  suffices ∀ t', (m.runFrom budget t).machine = (m.runFrom budget t').machine from this {}
  induction budget generalizing m t with
  | zero => exact fun _ => rfl
  | succ budget ih =>
    intro t'
    rw [runFrom, runFrom]
    rcases m.step with ⟨m', _ | why⟩
    · exact ih m' _ _
    · rfl

/-- A run goes on from where its first step leads. -/
theorem machine_run_succ (h : m.step = (m', none)) (budget : Nat) :
    (m.run (budget + 1)).machine = (m'.run budget).machine := by
  rw [run, runFrom, h]
  exact machine_runFrom budget m' _

theorem machine_run_of_stop {why : Stop} (h : m.step = (m', some why)) (budget : Nat) :
    (m.run (budget + 1)).machine = m' := by
  rw [run, runFrom, h]

end Machine

namespace Pose

variable {a b : Pose n} {symbol : Char}

/-- The symbol is next. -/
def Reads (a : Pose n) (symbol : Char) : Prop := a.memory[a.place]? = some symbol.toUInt8

/-- The next instruction leads every machine from one pose to the other, and draws nothing. -/
def LeadsTo (a b : Pose n) : Prop :=
  ∀ m : Machine n, m.pose = a → ∃ m', m.step = (m', none) ∧ m'.pose = b ∧ m'.stream = m.stream

/-- Every run from the pose that has a budget for `k` steps, or for more, leaves the bytes `final`
behind, and draws nothing. -/
def Settles (a : Pose n) (k : Nat) (final : Vector UInt8 n) : Prop :=
  ∀ m : Machine n, m.pose = a → ∀ budget, k ≤ budget →
    (m.run budget).machine.memory = final ∧ (m.run budget).machine.stream = m.stream

/-! ## One step -/

theorem Reads.of_pose {m : Machine n} (h : m.pose.Reads symbol) : m.Reads symbol := by
  have hget : m.memory[m.place.val]? = some symbol.toUInt8 := h
  rw [Vector.getElem?_eq_getElem m.place.isLt] at hget
  exact Option.some.inj hget

theorem datum_of_pose {m : Machine n} {byte : UInt8}
    (h : m.pose.memory[m.pose.head0]? = some byte) : m.datum = byte := by
  have hget : m.memory[m.head0.val]? = some byte := h
  rw [Vector.getElem?_eq_getElem m.head0.isLt] at hget
  exact Option.some.inj hget

theorem instruction_of_blank {m : Machine n} (h : m.pose.memory[m.pose.place]? = some 0) :
    m.instruction = .idle := by
  have hget : m.memory[m.place.val]? = some 0 := h
  rw [Vector.getElem?_eq_getElem m.place.isLt] at hget
  rw [Machine.instruction_eq]
  exact congrArg Instruction.ofByte (Option.some.inj hget)

theorem leadsTo_idle (h : a.memory[a.place]? = some 0) (hn : a.place + 1 < n) :
    a.LeadsTo { a with place := a.place + 1 } := by
  rintro m rfl
  refine ⟨{ m with place := ⟨m.place.val + 1, hn⟩ }, ?_, rfl, rfl⟩
  rw [Machine.step, instruction_of_blank h]
  exact Machine.proceed_of_lt hn

theorem leadsTo_head0Right (h : a.Reads '>') (hn : a.place + 1 < n) (h0 : a.head0 + 1 < n) :
    a.LeadsTo { a with place := a.place + 1, head0 := a.head0 + 1 } := by
  rintro m rfl
  refine ⟨{ m with head0 := Machine.rightOf m.head0, place := ⟨m.place.val + 1, hn⟩ }, ?_, ?_, rfl⟩
  · rw [Machine.step_of_acts (.head0Right h.of_pose (Machine.follows_iff_eq_rightOf.mpr rfl))]
    exact Machine.proceed_of_lt hn
  · have hright : (Machine.rightOf m.head0).val = m.head0.val + 1 :=
      Machine.val_rightOf.trans (if_neg (Nat.ne_of_lt h0))
    simp only [Machine.pose, hright]

theorem leadsTo_head1Right (h : a.Reads '}') (hn : a.place + 1 < n) (h1 : a.head1 + 1 < n) :
    a.LeadsTo { a with place := a.place + 1, head1 := a.head1 + 1 } := by
  rintro m rfl
  refine ⟨{ m with head1 := Machine.rightOf m.head1, place := ⟨m.place.val + 1, hn⟩ }, ?_, ?_, rfl⟩
  · rw [Machine.step_of_acts (.head1Right h.of_pose (Machine.follows_iff_eq_rightOf.mpr rfl))]
    exact Machine.proceed_of_lt hn
  · have hright : (Machine.rightOf m.head1).val = m.head1.val + 1 :=
      Machine.val_rightOf.trans (if_neg (Nat.ne_of_lt h1))
    simp only [Machine.pose, hright]

theorem leadsTo_copyOut (h : a.Reads '.') (hn : a.place + 1 < n) {byte : UInt8}
    (hbyte : a.memory[a.head0]? = some byte) :
    a.LeadsTo { a with memory := a.memory.setIfInBounds a.head1 byte, place := a.place + 1 } := by
  rintro m rfl
  refine ⟨{ m.write m.head1 m.datum with place := ⟨m.place.val + 1, hn⟩ }, ?_, ?_, rfl⟩
  · rw [Machine.step_of_acts (.copyOut h.of_pose)]
    exact Machine.proceed_of_lt hn
  · have hset : m.memory.set m.head1.val byte = m.memory.setIfInBounds m.head1.val byte := by
      ext i hi
      simp [Vector.getElem_set, Vector.getElem_setIfInBounds]
    simp only [Machine.pose, Machine.write, datum_of_pose hbyte, hset]

theorem leadsTo_enter (h : a.Reads '[') (hn : a.place + 1 < n) {byte : UInt8}
    (hbyte : a.memory[a.head0]? = some byte) (hne : byte ≠ 0) :
    a.LeadsTo { a with place := a.place + 1 } := by
  rintro m rfl
  refine ⟨{ m with place := ⟨m.place.val + 1, hn⟩ }, ?_, rfl, rfl⟩
  rw [Machine.step_enter h.of_pose (datum_of_pose hbyte ▸ hne)]
  exact Machine.proceed_of_lt hn

theorem leadsTo_skip (h : a.Reads '[') (hbyte : a.memory[a.head0]? = some 0) {o c : Fin n}
    (ho : o.val = a.place) (hpartners : Partners a.memory o c) (hn : c.val + 1 < n) :
    a.LeadsTo { a with place := c.val + 1 } := by
  rintro m rfl
  obtain rfl : o = m.place := Fin.ext ho
  refine ⟨{ m with place := ⟨c.val + 1, hn⟩ }, ?_, rfl, rfl⟩
  rw [Machine.step_skip h.of_pose (datum_of_pose hbyte) hpartners]
  exact Machine.proceed_of_lt hn

theorem leadsTo_leave (h : a.Reads ']') (hn : a.place + 1 < n)
    (hbyte : a.memory[a.head0]? = some 0) : a.LeadsTo { a with place := a.place + 1 } := by
  rintro m rfl
  refine ⟨{ m with place := ⟨m.place.val + 1, hn⟩ }, ?_, rfl, rfl⟩
  rw [Machine.step_leave h.of_pose (datum_of_pose hbyte)]
  exact Machine.proceed_of_lt hn

theorem leadsTo_again (h : a.Reads ']') {byte : UInt8} (hbyte : a.memory[a.head0]? = some byte)
    (hne : byte ≠ 0) {o c : Fin n} (hc : c.val = a.place) (hpartners : Partners a.memory o c) :
    a.LeadsTo { a with place := o.val + 1 } := by
  rintro m rfl
  obtain rfl : c = m.place := Fin.ext hc
  have hn : o.val + 1 < n := by
    have := hpartners.lt
    have := m.place.isLt
    omega
  refine ⟨{ m with place := ⟨o.val + 1, hn⟩ }, ?_, rfl, rfl⟩
  rw [Machine.step_again h.of_pose (datum_of_pose hbyte ▸ hne) hpartners]
  exact Machine.proceed_of_lt hn

/-! ## What runs leave behind -/

theorem Settles.mono {k k' : Nat} {final : Vector UInt8 n} (h : a.Settles k final) (hk : k ≤ k') :
    a.Settles k' final := fun m hm budget hb => h m hm budget (Nat.le_trans hk hb)

/-- **What a run leaves behind, it leaves behind with one more step in front.** -/
theorem Settles.step {k : Nat} {final : Vector UInt8 n} (h : a.LeadsTo b)
    (hb : b.Settles k final) : a.Settles (k + 1) final := by
  intro m hm budget hk
  obtain ⟨m', hstep, hpose, hstream⟩ := h m hm
  obtain ⟨rest, rfl⟩ := Nat.exists_eq_add_of_le' (Nat.le_trans (Nat.le_add_left 1 k) hk)
  rw [Machine.machine_run_succ hstep, ← hstream]
  exact hb m' hpose rest (by omega)

/-- A step that changes no byte may be in front of a run that changes none. -/
theorem Settles.step_of_memory_eq (h : a.LeadsTo b) (hmemory : b.memory = a.memory)
    (hb : b.Settles 0 b.memory) : a.Settles 0 a.memory := by
  intro m hm budget _
  cases budget with
  | zero => exact ⟨congrArg Pose.memory hm, rfl⟩
  | succ budget => exact (hmemory ▸ hb.step h) m hm (budget + 1) (by omega)

/-- **Blank bytes are passed over**: what holds where they end holds where they begin. -/
theorem settles_of_blankFrom {memory : Vector UInt8 n} {first last head0 head1 : Nat}
    (hblank : BlankFrom memory first last) (hle : first ≤ last) (hlast : last < n)
    (h : (Pose.mk memory last head0 head1).Settles 0 memory) :
    (Pose.mk memory first head0 head1).Settles 0 memory := by
  induction hle using Nat.decreasingInduction with
  | self => exact h
  | of_succ place hplace ih =>
    have hstep := leadsTo_idle (a := ⟨memory, place, head0, head1⟩)
      (hblank place (Nat.le_refl _) hplace) (by change place + 1 < n; omega)
    exact Settles.step_of_memory_eq hstep rfl (ih fun i hi => hblank i (by omega))

/-- **A run over blank bytes up to the end changes nothing.** -/
theorem settles_of_rest {memory : Vector UInt8 n} {place head0 head1 : Nat}
    (hblank : BlankFrom memory place n) (hn : place < n) :
    (Pose.mk memory place head0 head1).Settles 0 memory := by
  refine settles_of_blankFrom (fun i hi hlt => hblank i hi (by omega)) (Nat.le_sub_one_of_lt hn)
    (by omega) ?_
  intro m hm budget _
  cases budget with
  | zero => exact ⟨congrArg Pose.memory hm, rfl⟩
  | succ budget =>
    have hlast : m.place.val = n - 1 := congrArg Pose.place hm
    have hidle : m.instruction = .idle := by
      refine instruction_of_blank ?_
      rw [hm]
      exact hblank (n - 1) (by omega) (by omega)
    have hstop : m.step = (m, some .ranOff) := by
      rw [Machine.step, hidle]
      exact dif_neg (by omega)
    rw [Machine.machine_run_of_stop hstop]
    exact ⟨congrArg Pose.memory hm, rfl⟩

end Pose

end TapeLife
