import TapeLife.Program
import TapeLife.Proofs.Machine.Copying

/-!
# Proofs/Machine/Copier — what the replicator does to the tapes it runs on

A cell whose tape begins with the copying loop writes its bytes up to the first zero onto whatever
neighbour it has, one byte in four steps, and stays what it is (`Cell.copies_beginning`).

The replicator is the loop with nothing but zeros behind it.  When the loop is through, the machine
walks on over zeros.  Beside a neighbour it comes to the neighbour's first byte with its data head
still on a zero, so it jumps over the copy it has made and walks on to the end.  A blank tape is
walked over in the same way.  So tapes that are blank or the replicator stay what they are, except
that a blank neighbour of the replicator becomes one (`runAlone_eq_self`, `runBeside_eq`).
-/

namespace TapeLife

variable {n : Nat}

/-- The bytes of the replicator up to its first zero, which is among them. -/
def loopBytes : List UInt8 := [0x5b, 0x2e, 0x3e, 0x7d, 0x5d, 0]

/-- The loop of the replicator stands at a place, with a zero behind it. -/
def HasLoop (memory : Vector UInt8 n) (o : Nat) : Prop :=
  ∀ k < 6, memory[o + k]? = loopBytes[k]?

namespace HasLoop

variable {memory : Vector UInt8 n} {o : Nat}

theorem lt (h : HasLoop memory o) : o + 5 < n := by
  have hlast : memory[o + 5]? = some 0 := h 5 (by omega)
  exact (Vector.getElem?_eq_some_iff.mp hlast).1

/-- The brackets of the loop are partners. -/
theorem partners (h : HasLoop memory o) :
    Partners memory ⟨o, by have := h.lt; omega⟩ ⟨o + 4, by have := h.lt; omega⟩ := by
  have hlt := h.lt
  have hcode : ∀ k < 5, loopBytes[k]? = copierCode[k]? := by decide
  exact partners_of_loop (by omega) fun k hk => (h k (by omega)).trans (hcode k hk)

end HasLoop

namespace Pose

variable {memory : Vector UInt8 n}

/-! ## The way over zeros -/

/-- Code on which the data head reads a zero is jumped over. -/
theorem settles_past_loop {o head0 head1 : Nat} (hloop : HasLoop memory o)
    (hblank : BlankFrom memory (o + 5) n) (hdatum : memory[head0]? = some 0) :
    (Pose.mk memory o head0 head1).Settles 0 memory := by
  have hlt := hloop.lt
  have skip := leadsTo_skip (a := ⟨memory, o, head0, head1⟩) (hloop 0 (by omega)) hdatum rfl
    hloop.partners hlt
  exact Settles.step_of_memory_eq skip rfl (settles_of_rest hblank hlt)

end Pose

/-! ## Blank tapes and replicators -/

/-- Nothing is written on the tape, or the replicator is. -/
def Tape.IsBlankOrReplicator (tape : Tape) : Prop :=
  tape = Tape.blank ∨ tape = Program.replicatorTape

instance (tape : Tape) : Decidable tape.IsBlankOrReplicator :=
  inferInstanceAs (Decidable (_ ∨ _))

section

open Pose

variable {tape neighbour : Tape}

theorem hasLoop_replicatorTape : HasLoop Program.replicatorTape 0 := by
  intro k hk
  match k, hk with
  | 0, _ | 1, _ | 2, _ | 3, _ | 4, _ | 5, _ => rfl

theorem isCopier_replicatorTape : IsCopier Program.replicatorTape 5 where
  begins := rfl
  ne_zero := by decide
  zero := rfl

theorem blankFrom_blank : BlankFrom Tape.blank 0 tapeSize :=
  fun i _ hi => by rw [Tape.blank, Vector.getElem?_replicate, if_pos hi]

theorem blankFrom_replicatorTape : BlankFrom Program.replicatorTape 5 tapeSize := by
  intro i hfirst hi
  rw [Vector.getElem?_eq_getElem hi, Program.replicatorTape, Tape.getElem_ofBytes,
    List.getD_eq_getElem?_getD, List.getElem?_eq_none hfirst]
  rfl

/-- Behind the loop the two tapes are the same. -/
theorem getElem?_blank_eq {i : Nat} (hi : 5 ≤ i) :
    Tape.blank[i]? = Program.replicatorTape[i]? := by
  by_cases hlt : i < tapeSize
  · rw [blankFrom_blank i (by omega) hlt, blankFrom_replicatorTape i hi hlt]
  · rw [Vector.getElem?_eq_none (Nat.le_of_not_lt hlt),
      Vector.getElem?_eq_none (Nat.le_of_not_lt hlt)]

/-! ### Joined tapes -/

theorem getElem?_append_neighbour (i : Nat) :
    (tape ++ neighbour)[tapeSize + i]? = neighbour[i]? := by
  rw [Vector.getElem?_append_right (Nat.le_add_right _ _), Nat.add_sub_cancel_left]

theorem IsCopier.append {m : Nat} (h : IsCopier tape m) : IsCopier (tape ++ neighbour) m where
  begins := by
    have hfive : 5 ≤ tape.toList.length := by
      rw [Vector.length_toList]
      decide
    rw [Vector.toList_append, List.take_append_of_le_length hfive]
    exact h.begins
  ne_zero i hi := by
    rw [Vector.getElem?_append_left (Nat.lt_trans hi h.lt_size)]
    exact h.ne_zero i hi
  zero := (Vector.getElem?_append_left h.lt_size).trans h.zero

theorem HasLoop.append_right (h : HasLoop neighbour 0) : HasLoop (tape ++ neighbour) tapeSize :=
  fun k hk => (getElem?_append_neighbour k).trans (by simpa using h k hk)

theorem BlankFrom.append_left {first : Nat} (h : BlankFrom tape first tapeSize) :
    BlankFrom (tape ++ neighbour) first tapeSize :=
  fun i hfirst hi => (Vector.getElem?_append_left hi).trans (h i hfirst hi)

theorem BlankFrom.append_right {first : Nat} (h : BlankFrom neighbour first tapeSize) :
    BlankFrom (tape ++ neighbour) (tapeSize + first) (tapeSize + tapeSize) := by
  intro i hfirst hi
  obtain ⟨k, rfl⟩ := Nat.exists_eq_add_of_le (Nat.le_trans (Nat.le_add_right _ _) hfirst)
  exact (getElem?_append_neighbour k).trans (h k (by omega) (by omega))

/-- Alone, a copier copies onto itself. -/
theorem IsCopier.copiesTo_self {m : Nat} (h : IsCopier tape m) : CopiesTo tape m 0 :=
  { h with
    lt_tapeSize := h.lt_size
    onto_or_beyond := .inl rfl
    room := (Nat.zero_add m).symm ▸ h.lt_size }

/-- Beside a neighbour, a copier copies to the neighbour's tape. -/
theorem IsCopier.copiesTo_neighbour {m : Nat} (h : IsCopier tape m) :
    CopiesTo (tape ++ neighbour) m tapeSize :=
  { h.append with
    lt_tapeSize := h.lt_size
    onto_or_beyond := .inr (Nat.le_refl _)
    room := Nat.add_lt_add_left h.lt_size _ }

/-- A copy to the neighbour's tape replaces its first bytes. -/
theorem copied_append (count : Nat) :
    copied (tape ++ neighbour) tapeSize count =
      tape ++ (Vector.ofFn fun i => if i.val < count then tape[i] else neighbour[i] : Tape) := by
  refine Vector.ext fun j hj => ?_
  rw [getElem_copied hj]
  by_cases hown : j < tapeSize
  · rw [if_neg (by omega), Vector.getElem_append_left hown, Vector.getElem_append_left hown]
  · obtain ⟨i, rfl⟩ := Nat.exists_eq_add_of_le (Nat.le_of_not_lt hown)
    simp only [Vector.getElem_append_right hj (Nat.le_add_right _ _), Vector.getElem_ofFn,
      Nat.add_sub_cancel_left]
    by_cases hin : i < count
    · rw [if_pos (by omega), if_pos hin, Vector.getElem_append_left (by omega), Fin.getElem_fin]
    · rw [if_neg (by omega), if_neg hin, Fin.getElem_fin]

/-- **A neighbour's tape is walked over** with the data head on a zero. -/
theorem settles_neighbour {head0 head1 : Nat} (hneighbour : neighbour.IsBlankOrReplicator)
    (hdatum : (tape ++ neighbour)[head0]? = some 0) :
    (Pose.mk (tape ++ neighbour) tapeSize head0 head1).Settles 0 (tape ++ neighbour) := by
  obtain rfl | rfl := hneighbour
  · exact settles_of_rest blankFrom_blank.append_right (by decide)
  · exact settles_past_loop hasLoop_replicatorTape.append_right
      blankFrom_replicatorTape.append_right hdatum

theorem settles_blank_beside {head1 : Nat} (hneighbour : neighbour.IsBlankOrReplicator) :
    (Pose.mk (Tape.blank ++ neighbour) 0 0 head1).Settles 0 (Tape.blank ++ neighbour) :=
  settles_of_blankFrom blankFrom_blank.append_left (by decide) (by decide)
    (settles_neighbour hneighbour (blankFrom_blank.append_left 0 (by decide) (by decide)))

theorem copied_replicatorTape (hneighbour : neighbour.IsBlankOrReplicator) :
    copied (Program.replicatorTape ++ neighbour) tapeSize 5 =
      Program.replicatorTape ++ Program.replicatorTape := by
  rw [copied_append]
  refine congrArg (Program.replicatorTape ++ ·) (Vector.ext fun i hi => ?_)
  rw [Vector.getElem_ofFn]
  split_ifs with hcode
  · rfl
  · -- behind the loop a blank tape and the replicator are the same
    obtain rfl | rfl := hneighbour
    · have hsame := getElem?_blank_eq (Nat.le_of_not_lt hcode)
      rwa [Vector.getElem?_eq_getElem hi, Vector.getElem?_eq_getElem hi, Option.some_inj] at hsame
    · rfl

theorem settles_replicator_beside (hneighbour : neighbour.IsBlankOrReplicator) :
    (Pose.mk (Program.replicatorTape ++ neighbour) 0 0 tapeSize).Settles 21
      (Program.replicatorTape ++ Program.replicatorTape) := by
  refine isCopier_replicatorTape.copiesTo_neighbour.settles ?_
  rw [copied_replicatorTape hneighbour]
  exact settles_of_blankFrom blankFrom_replicatorTape.append_left (by decide) (by decide)
    (settles_neighbour (.inr rfl) (isCopier_replicatorTape.append.zero))

theorem settles_replicator_alone :
    (Pose.mk Program.replicatorTape 0 0 0).Settles 21 Program.replicatorTape := by
  refine isCopier_replicatorTape.copiesTo_self.settles ?_
  rw [copied_onto]
  exact settles_of_rest blankFrom_replicatorTape (by decide)

end

/-! ### Cells -/

namespace Cell

variable {cell : Cell} {neighbour : Tape} {budget : Nat}

/-- **Alone, a blank cell and a replicator stay what they are**, and draw nothing. -/
theorem runAlone_eq_self (hcell : cell.tape.IsBlankOrReplicator) (hbudget : 21 ≤ budget) :
    (cell.runAlone budget).1 = cell := by
  have hsettles : (Pose.mk cell.tape 0 0 0).Settles 21 cell.tape := by
    obtain hblank | hreplicator := hcell
    · rw [hblank]
      exact (Pose.settles_of_rest blankFrom_blank (by decide)).mono (by decide)
    · rw [hreplicator]
      exact settles_replicator_alone
  obtain ⟨hmemory, hstream⟩ := hsettles cell.machineAlone rfl budget hbudget
  simp only [runAlone, hmemory, hstream]
  rfl

/-- **Beside a neighbour, a replicator leaves a replicator there** and a blank cell leaves the
neighbour as it is; the cell itself stays what it is, and draws nothing. -/
theorem runBeside_eq (hcell : cell.tape.IsBlankOrReplicator)
    (hneighbour : neighbour.IsBlankOrReplicator) (hbudget : 21 ≤ budget) :
    (cell.runBeside budget neighbour).1 = cell ∧
      (cell.runBeside budget neighbour).2.1 =
        if cell.tape = Program.replicatorTape then Program.replicatorTape else neighbour := by
  have hsettles : (Pose.mk (cell.tape ++ neighbour) 0 0 tapeSize).Settles 21 (cell.tape ++
      if cell.tape = Program.replicatorTape then Program.replicatorTape else neighbour) := by
    obtain hblank | hreplicator := hcell
    · rw [hblank, if_neg (by decide)]
      exact (settles_blank_beside hneighbour).mono (by decide)
    · rw [hreplicator, if_pos rfl]
      exact settles_replicator_beside hneighbour
  obtain ⟨hmemory, hstream⟩ := hsettles (cell.machineBeside neighbour) rfl budget hbudget
  simp only [runBeside, hmemory, hstream, JoinedTape.own_append, JoinedTape.neighbour_append]
  exact ⟨rfl, trivial⟩

/-- A copier beside a neighbour, until it is through with its loop. -/
theorem runBeside_of_isCopier {m : Nat} (hcell : IsCopier cell.tape m)
    (hbudget : budget ≤ 4 * m + 1) :
    cell.runBeside budget neighbour =
      (cell,
        Vector.ofFn fun i => if i.val < (budget + 2) / 4 then cell.tape[i] else neighbour[i],
        { steps := budget, ops := budget, channelWrites := (budget + 2) / 4 }) := by
  have hstart : (cell.machineBeside neighbour).pose = ⟨cell.tape ++ neighbour, 0, 0, tapeSize⟩ := rfl
  obtain ⟨hmemory, hstream, htally⟩ := hcell.copiesTo_neighbour.run hbudget hstart
  rw [copied_append] at hmemory
  simp only [runBeside, hmemory, hstream, htally, JoinedTape.own_append, JoinedTape.neighbour_append]
  rfl

/-- Alone, the replicator copies onto itself, and then walks over zeros. -/
theorem runAlone_of_replicator (hcell : cell.tape = Program.replicatorTape) (budget : Nat) :
    (cell.runAlone budget).1 = cell := by
  obtain hlong | hshort := Nat.le_total 21 budget
  · exact runAlone_eq_self (.inr hcell) hlong
  · have hcopier : IsCopier cell.tape 5 := hcell ▸ isCopier_replicatorTape
    have hstart : cell.machineAlone.pose = ⟨cell.tape, 0, 0, 0⟩ := rfl
    obtain ⟨hmemory, hstream, -⟩ := hcopier.copiesTo_self.run hshort hstart
    rw [copied_onto] at hmemory
    simp only [runAlone, hmemory, hstream]
    rfl

/-- **A copier writes its beginning onto its neighbour**, a byte in four steps, and changes nothing
else: after all its rounds everything up to its first zero stands there.  Alone, the replicator
never changes. -/
theorem copies_beginning (cell : Cell) :
    (∀ (neighbour : Tape) (m : Nat), IsCopier cell.tape m →
      (∀ budget ≤ 4 * m + 1, cell.runBeside budget neighbour =
        (cell,
          Vector.ofFn fun i => if i.val < (budget + 2) / 4 then cell.tape[i] else neighbour[i],
          { steps := budget, ops := budget, channelWrites := (budget + 2) / 4 })) ∧
      (cell.runBeside (4 * m + 1) neighbour).2.1.toList.take m = cell.tape.toList.take m) ∧
    (cell.tape = Program.replicatorTape → ∀ budget, (cell.runAlone budget).1 = cell) := by
  refine ⟨fun neighbour m hcell => ⟨fun budget => runBeside_of_isCopier hcell, ?_⟩,
    runAlone_of_replicator⟩
  have hall : (4 * m + 1 + 2) / 4 = m := by omega
  rw [runBeside_of_isCopier hcell (Nat.le_refl _), hall]
  apply List.ext_getElem?
  intro i
  by_cases hi : i < m
  · have hlt : i < tapeSize := Nat.lt_trans hi hcell.lt_size
    simp [hi, hlt]
  · rw [List.getElem?_eq_none, List.getElem?_eq_none] <;> simp <;> omega

/-- A copier that has two letters behind its loop. -/
def letterCopier : Cell := ⟨false, Tape.ofBytes (copierCode ++ [0x61, 0x62]), ⟨1⟩⟩

/-- A copier is stopped in the middle of its fourth round, or copies its letters too; the replicator
is stopped in the middle of its second round. -/
theorem copies_beginning_letters :
    IsCopier letterCopier.tape 7 ∧
      letterCopier.runBeside 16 (Tape.ofBytes (.replicate 9 0x78)) =
        (letterCopier, Tape.ofBytes (copierCode.take 4 ++ .replicate 5 0x78),
          { steps := 16, ops := 16, channelWrites := 4 }) ∧
      (letterCopier.runBeside 29 (Tape.ofBytes (.replicate 9 0x78))).2.1.toList.take 7 =
        copierCode ++ [0x61, 0x62] ∧
      ((Cell.mk true Program.replicatorTape ⟨1⟩).runAlone 6).1 =
        Cell.mk true Program.replicatorTape ⟨1⟩ := by
  have hcopier : IsCopier letterCopier.tape 7 :=
    { begins := rfl, ne_zero := by decide, zero := rfl }
  obtain ⟨hrounds, hall⟩ :=
    (copies_beginning letterCopier).1 (Tape.ofBytes (.replicate 9 0x78)) 7 hcopier
  have hmiddle : (Vector.ofFn fun i : Fin tapeSize =>
      if i.val < (16 + 2) / 4 then letterCopier.tape[i]
      else (Tape.ofBytes (.replicate 9 0x78))[i]) =
        Tape.ofBytes (copierCode.take 4 ++ .replicate 5 0x78) := by
    decide +kernel
  refine ⟨hcopier, ?_, hall.trans rfl, (copies_beginning _).2 rfl 6⟩
  rw [hrounds 16 (by decide), hmiddle]

end Cell

end TapeLife
