import TapeLife.Proofs.Machine.Pose

/-!
# Proofs/Machine/Copying — a loop that copies its tape up to the first zero

    place   0 1 2 3 4 5 …     m           c
            [ . > } ] a b … z 0           the copy goes to  [ . > } ] a b … z

Five bytes make a copier out of whatever follows them: a round copies the byte under the data head
to the channel head and moves both heads on, until the data head stands on a zero.  One step comes
before the first round and a round takes four, so everything about a run is known from the number
`s` of its steps: the bytes that are copied (`(s + 2) / 4`), the heads, the place, and the tally
(`Pose.copying`, `Tally.copying`).  One step leads from each of these poses to the next and is
counted so (`CopiesTo.leadsTo`, `CopiesTo.tally_count`), hence a whole run is known
(`CopiesTo.run`).  The copy goes onto the copier itself, or to the neighbour's tape.
-/

namespace TapeLife

variable {n : Nat}

/-- The loop that copies. -/
def copierCode : List UInt8 := ['[', '.', '>', '}', ']'].map Char.toUInt8

/-- Bytes that begin with the copying loop and have their first zero at `m`. -/
structure IsCopier (memory : Vector UInt8 n) (m : Nat) : Prop where
  begins : memory.toList.take 5 = copierCode
  ne_zero : ∀ i < m, memory[i]? ≠ some 0
  zero : memory[m]? = some 0

/-- A copier with its channel head at `c`: on its own first byte, or beyond its tape with room for
the copy. -/
structure CopiesTo (memory : Vector UInt8 n) (m c : Nat) : Prop extends IsCopier memory m where
  lt_tapeSize : m < tapeSize
  onto_or_beyond : c = 0 ∨ tapeSize ≤ c
  room : c + m < n

/-- A loop that stands at a place has its brackets as partners. -/
theorem partners_of_loop {memory : Vector UInt8 n} {o : Nat} (ho : o + 4 < n)
    (h : ∀ k < 5, memory[o + k]? = copierCode[k]?) :
    Partners memory ⟨o, by omega⟩ ⟨o + 4, ho⟩ where
  lt := Nat.lt_add_of_pos_right (by omega)
  opens := (Vector.getElem?_eq_some_iff.mp (h 0 (by omega))).2
  closes := (Vector.getElem?_eq_some_iff.mp (h 4 (by omega))).2
  balanced := by
    have hbody : between memory.toList o (o + 4) = [0x2e, 0x3e, 0x7d] := by
      apply List.ext_getElem?
      intro k
      rw [between, List.getElem?_drop, List.getElem?_take, Vector.getElem?_toList]
      match k with
      | 0 => exact (if_pos (by omega)).trans (h 1 (by omega))
      | 1 => exact (if_pos (by omega)).trans (h 2 (by omega))
      | 2 => exact (if_pos (by omega)).trans (h 3 (by omega))
      | k + 3 => exact if_neg (by omega)
    rw [hbody]
    exact .other (by decide) (by decide)
      (.other (by decide) (by decide) (.other (by decide) (by decide) .nil))

/-- The bytes with the first `count` of them copied to the places from `c` on. -/
def copied (memory : Vector UInt8 n) (c count : Nat) : Vector UInt8 n :=
  Vector.ofFn fun j =>
    if c ≤ j.val ∧ j.val < c + count then
      memory.get ⟨j.val - c, Nat.lt_of_le_of_lt (Nat.sub_le _ _) j.isLt⟩
    else memory.get j

namespace IsCopier

variable {memory : Vector UInt8 n} {m : Nat}

theorem getElem?_code (h : IsCopier memory m) {k : Nat} (hk : k < 5) :
    memory[k]? = copierCode[k]? := by
  rw [← h.begins, List.getElem?_take_of_lt hk, Vector.getElem?_toList]

/-- The loop has no zero. -/
theorem five_le (h : IsCopier memory m) : 5 ≤ m := by
  refine Nat.le_of_not_lt fun hlt => ?_
  have hcode : ∀ k < 5, copierCode[k]? ≠ some 0 := by decide
  exact hcode m hlt ((h.getElem?_code hlt).symm.trans h.zero)

theorem lt_size (h : IsCopier memory m) : m < n := (Vector.getElem?_eq_some_iff.mp h.zero).1

theorem exists_byte (h : IsCopier memory m) {i : Nat} (hi : i < m) :
    ∃ byte, memory[i]? = some byte ∧ byte ≠ 0 := by
  have hn := h.lt_size
  refine ⟨memory[i], Vector.getElem?_eq_getElem _, fun hzero => h.ne_zero i hi ?_⟩
  rw [Vector.getElem?_eq_getElem (by omega), hzero]

end IsCopier

/-! ## The copy -/

section Copied

variable {memory : Vector UInt8 n} {c count : Nat}

theorem getElem_copied {j : Nat} (hj : j < n) :
    (copied memory c count)[j] = if c ≤ j ∧ j < c + count then memory[j - c] else memory[j] := by
  rw [copied, Vector.getElem_ofFn]
  rfl

theorem copied_zero (memory : Vector UInt8 n) (c : Nat) : copied memory c 0 = memory := by
  refine Vector.ext fun j hj => ?_
  rw [getElem_copied hj, if_neg (by omega)]

/-- A copy onto itself changes nothing. -/
theorem copied_onto (memory : Vector UInt8 n) (count : Nat) : copied memory 0 count = memory := by
  refine Vector.ext fun j hj => ?_
  simp [getElem_copied]

/-- One more byte is copied. -/
theorem copied_succ {byte : UInt8} (hbyte : memory[count]? = some byte) :
    (copied memory c count).setIfInBounds (c + count) byte = copied memory c (count + 1) := by
  obtain ⟨-, rfl⟩ := Vector.getElem?_eq_some_iff.mp hbyte
  refine Vector.ext fun j hj => ?_
  simp only [Vector.getElem_setIfInBounds, getElem_copied]
  -- only the next place is different, and it has the next byte now
  split_ifs with hnext hin hin hin hin
  · congr 1
    omega
  all_goals first | rfl | omega

end Copied

/-! ## One step -/

namespace Pose

/-- Where everything stands after `s` steps: the loop is entered first, and then every round copies
a byte, moves both heads, and closes. -/
def copying (memory : Vector UInt8 n) (m c s : Nat) : Pose n where
  memory := copied memory c ((s + 2) / 4)
  place := if s = 0 then 0 else if s = 4 * m + 1 then 5 else (s - 1) % 4 + 1
  head0 := (s + 1) / 4
  head1 := c + s / 4

variable {memory : Vector UInt8 n} {m c k : Nat}

theorem copying_zero : copying memory m c 0 = ⟨memory, 0, 0, c⟩ := by
  simp [copying, copied_zero]

theorem copying_copy (hk : k < m) :
    copying memory m c (4 * k + 1) = ⟨copied memory c k, 1, k, c + k⟩ := by
  simp only [copying, Pose.mk.injEq]
  refine ⟨by congr 1; omega, ?_, by omega, by omega⟩
  split_ifs <;> omega

theorem copying_head0 :
    copying memory m c (4 * k + 2) = ⟨copied memory c (k + 1), 2, k, c + k⟩ := by
  simp only [copying, Pose.mk.injEq]
  refine ⟨by congr 1; omega, ?_, by omega, by omega⟩
  split_ifs <;> omega

theorem copying_head1 :
    copying memory m c (4 * k + 3) = ⟨copied memory c (k + 1), 3, k + 1, c + k⟩ := by
  simp only [copying, Pose.mk.injEq]
  refine ⟨by congr 1; omega, ?_, by omega, by omega⟩
  split_ifs <;> omega

theorem copying_close :
    copying memory m c (4 * k + 4) = ⟨copied memory c (k + 1), 4, k + 1, c + k + 1⟩ := by
  simp only [copying, Pose.mk.injEq]
  refine ⟨by congr 1; omega, ?_, by omega, by omega⟩
  split_ifs <;> omega

theorem copying_end : copying memory m c (4 * m + 1) = ⟨copied memory c m, 5, m, c + m⟩ := by
  simp only [copying, Pose.mk.injEq]
  refine ⟨by congr 1; omega, ?_, by omega, by omega⟩
  split_ifs <;> omega

/-- A step along the way enters the loop, or is one of the four of a round. -/
theorem copying_cases (hs : s ≤ 4 * m) :
    s = 0 ∨ ∃ k < m, s = 4 * k + 1 ∨ s = 4 * k + 2 ∨ s = 4 * k + 3 ∨ s = 4 * k + 4 := by
  obtain rfl | hpos := Nat.eq_zero_or_pos s
  · exact .inl rfl
  · exact .inr ⟨(s - 1) / 4, by omega, by omega⟩

end Pose

section Steps

variable {memory : Vector UInt8 n} {m c count s : Nat} {machine : Machine n}

/-- The copy leaves alone what it is a copy of. -/
theorem CopiesTo.getElem?_copied (h : CopiesTo memory m c) {j : Nat} (hj : j ≤ m) :
    (copied memory c count)[j]? = memory[j]? := by
  have hm := h.lt_tapeSize
  have hn := h.room
  obtain rfl | hfar := h.onto_or_beyond
  · rw [copied_onto]
  · have hjn : j < n := by omega
    rw [Vector.getElem?_eq_getElem hjn, Vector.getElem?_eq_getElem hjn, getElem_copied hjn,
      if_neg (by omega)]

theorem CopiesTo.getElem?_code (h : CopiesTo memory m c) {k : Nat} (hk : k < 5) :
    (copied memory c count)[k]? = copierCode[k]? := by
  have hfive := h.five_le
  exact (h.getElem?_copied (by omega)).trans (h.toIsCopier.getElem?_code hk)

/-- **One step leads to the next pose**, until the loop is left. -/
theorem CopiesTo.leadsTo (h : CopiesTo memory m c) (hs : s ≤ 4 * m) :
    (Pose.copying memory m c s).LeadsTo (Pose.copying memory m c (s + 1)) := by
  have hfive := h.five_le
  have hlt := h.lt_size
  have hroom := h.room
  obtain rfl | ⟨k, hk, rfl | rfl | rfl | rfl⟩ := Pose.copying_cases hs
  · rw [Pose.copying_zero, Pose.copying_copy (k := 0) (by omega), copied_zero]
    have hopen := h.toIsCopier.getElem?_code (k := 0) (by omega)
    exact Pose.leadsTo_enter hopen (by change 0 + 1 < n; omega) hopen (by decide)
  · obtain ⟨byte, hbyte, -⟩ := h.exists_byte hk
    rw [Pose.copying_copy hk, Pose.copying_head0, ← copied_succ hbyte]
    exact Pose.leadsTo_copyOut (a := ⟨copied memory c k, 1, k, c + k⟩)
      (h.getElem?_code (k := 1) (by omega)) (by change 1 + 1 < n; omega)
      ((h.getElem?_copied (j := k) (by omega)).trans hbyte)
  · rw [Pose.copying_head0, Pose.copying_head1]
    exact Pose.leadsTo_head0Right (h.getElem?_code (k := 2) (by omega))
      (by change 2 + 1 < n; omega) (by change k + 1 < n; omega)
  · rw [Pose.copying_head1, Pose.copying_close]
    exact Pose.leadsTo_head1Right (h.getElem?_code (k := 3) (by omega))
      (by change 3 + 1 < n; omega) (by change c + k + 1 < n; omega)
  · -- the loop goes on as long as the next byte is not the zero
    have hround : 4 * k + 4 + 1 = 4 * (k + 1) + 1 := rfl
    rw [Pose.copying_close, hround]
    obtain hmore | rfl := Nat.lt_or_eq_of_le hk
    · obtain ⟨byte, hbyte, hne⟩ := h.exists_byte hmore
      rw [Pose.copying_copy hmore]
      exact Pose.leadsTo_again (a := ⟨copied memory c (k + 1), 4, k + 1, c + k + 1⟩)
        (h.getElem?_code (k := 4) (by omega)) ((h.getElem?_copied hk).trans hbyte) hne rfl
        (partners_of_loop (o := 0) (by omega) fun j hj => by simpa using h.getElem?_code hj)
    · rw [Pose.copying_end]
      exact Pose.leadsTo_leave (h.getElem?_code (k := 4) (by omega))
        (by change 4 + 1 < n; omega) ((h.getElem?_copied hk).trans h.zero)

/-! ### What is counted -/

/-- The tally of `s` steps: all of them do something, and a copied byte is written on the
neighbour's tape if the copy lies there. -/
def Tally.copying (c s : Nat) : Tally where
  steps := s
  ops := s
  channelWrites := if tapeSize ≤ c then (s + 2) / 4 else 0

/-- A bracket or a move of a head to the right is an operation and nothing else. -/
theorem Tally.count_of_moves {symbol : Char} (t : Tally) (hmem : symbol ∈ ['[', '>', '}', ']'])
    (hread : machine.Reads symbol) :
    t.count machine = { t with steps := t.steps + 1, ops := t.ops + 1 } := by
  simp only [List.mem_cons, List.not_mem_nil, or_false] at hmem
  obtain rfl | rfl | rfl | rfl := hmem
  · have hop := (Machine.reads_iff .loopStart rfl).mp hread
    simp [Tally.count, Machine.target, hop]
  · have hop := (Machine.reads_iff .head0Right rfl).mp hread
    simp [Tally.count, Machine.target, hop]
  · have hop := (Machine.reads_iff .head1Right rfl).mp hread
    simp [Tally.count, Machine.target, hop]
  · have hop := (Machine.reads_iff .loopEnd rfl).mp hread
    simp [Tally.count, Machine.target, hop]

theorem Tally.count_of_copyOut (t : Tally) (hread : machine.Reads '.') :
    t.count machine =
      { t with
        steps := t.steps + 1
        ops := t.ops + 1
        channelWrites := t.channelWrites + if tapeSize ≤ machine.head1.val then 1 else 0 } := by
  have hop := (Machine.reads_iff .copyOut rfl).mp hread
  by_cases hfar : tapeSize ≤ machine.head1.val <;> simp [Tally.count, Machine.target, hop, hfar]

/-- **One step is counted** as the next pose says. -/
theorem CopiesTo.tally_count (h : CopiesTo memory m c) (hs : s ≤ 4 * m)
    (hpose : machine.pose = Pose.copying memory m c s) :
    (Tally.copying c s).count machine = Tally.copying c (s + 1) := by
  -- a step that copies nothing leaves the number of copied bytes as it is
  have hmove : ∀ symbol ∈ ['[', '>', '}', ']'], machine.pose.Reads symbol →
      (s + 1 + 2) / 4 = (s + 2) / 4 →
      (Tally.copying c s).count machine = Tally.copying c (s + 1) := by
    intro symbol hmem hread hsame
    rw [Tally.count_of_moves _ hmem hread.of_pose, Tally.copying, Tally.copying, hsame]
  obtain rfl | ⟨k, hk, rfl | rfl | rfl | rfl⟩ := Pose.copying_cases hs
  · refine hmove '[' (by simp) ?_ (by omega)
    rw [hpose, Pose.copying_zero]
    exact h.toIsCopier.getElem?_code (k := 0) (by omega)
  · have hread : machine.pose.Reads '.' := by
      rw [hpose, Pose.copying_copy hk]
      exact h.getElem?_code (k := 1) (by omega)
    have hhead : machine.head1.val = c + k := by
      have hpose1 := congrArg Pose.head1 hpose
      rwa [Pose.copying_copy hk] at hpose1
    -- the copy lies on the neighbour's tape from its first byte on, or not at all
    have hfar : tapeSize ≤ c + k ↔ tapeSize ≤ c := by
      have hm := h.lt_tapeSize
      have hc := h.onto_or_beyond
      omega
    rw [Tally.count_of_copyOut _ hread.of_pose, hhead]
    simp only [Tally.copying, hfar, Tally.mk.injEq, true_and, and_true]
    split_ifs <;> omega
  · refine hmove '>' (by simp) ?_ (by omega)
    rw [hpose, Pose.copying_head0]
    exact h.getElem?_code (k := 2) (by omega)
  · refine hmove '}' (by simp) ?_ (by omega)
    rw [hpose, Pose.copying_head1]
    exact h.getElem?_code (k := 3) (by omega)
  · refine hmove ']' (by simp) ?_ (by omega)
    rw [hpose, Pose.copying_close]
    exact h.getElem?_code (k := 4) (by omega)

/-! ### A run -/

/-- **A run that comes no further than out of the loop** uses its budget, draws nothing, and ends
where the number of its steps says. -/
theorem CopiesTo.runFrom (h : CopiesTo memory m c) (budget : Nat) (hs : s + budget ≤ 4 * m + 1)
    (hpose : machine.pose = Pose.copying memory m c s) :
    (machine.runFrom budget (.copying c s)).machine.pose = Pose.copying memory m c (s + budget) ∧
      (machine.runFrom budget (.copying c s)).machine.stream = machine.stream ∧
      (machine.runFrom budget (.copying c s)).tally = .copying c (s + budget) := by
  induction budget generalizing s machine with
  | zero => exact ⟨hpose, rfl, rfl⟩
  | succ budget ih =>
    obtain ⟨next, hstep, hnext, hstream⟩ := h.leadsTo (s := s) (by omega) machine hpose
    have hrun : machine.runFrom (budget + 1) (.copying c s) =
        next.runFrom budget (.copying c (s + 1)) := by
      rw [Machine.runFrom, hstep]
      exact congrArg (next.runFrom budget) (h.tally_count (by omega) hpose)
    rw [hrun, ← hstream, Nat.add_comm budget 1, ← Nat.add_assoc]
    exact ih (by omega) hnext

/-- **A run from the start copies a byte in four steps.** -/
theorem CopiesTo.run (h : CopiesTo memory m c) {budget : Nat} (hbudget : budget ≤ 4 * m + 1)
    (hpose : machine.pose = ⟨memory, 0, 0, c⟩) :
    (machine.run budget).machine.memory = copied memory c ((budget + 2) / 4) ∧
      (machine.run budget).machine.stream = machine.stream ∧
      (machine.run budget).tally = .copying c budget := by
  have hbegin : Tally.copying c 0 = {} := by simp [Tally.copying]
  obtain ⟨hend, hstream, htally⟩ := h.runFrom (s := 0) budget (by omega)
    (hpose.trans Pose.copying_zero.symm)
  rw [Nat.zero_add, hbegin] at hend htally
  rw [hbegin] at hstream
  exact ⟨congrArg Pose.memory hend, hstream, htally⟩

/-- What is left behind from where the loop ends is left behind from where it begins. -/
theorem CopiesTo.settles (h : CopiesTo memory m c) {final : Vector UInt8 n}
    (hend : (Pose.mk (copied memory c m) 5 m (c + m)).Settles 0 final) :
    (Pose.mk memory 0 0 c).Settles (4 * m + 1) final := by
  suffices ∀ left s, s + left = 4 * m + 1 → (Pose.copying memory m c s).Settles left final by
    simpa only [Pose.copying_zero] using this (4 * m + 1) 0 (Nat.zero_add _)
  intro left
  induction left with
  | zero =>
    rintro s rfl
    simpa only [Nat.add_zero, Pose.copying_end] using hend
  | succ left ih =>
    intro s hs
    exact (ih (s + 1) (by omega)).step (h.leadsTo (by omega))

end Steps

end TapeLife
