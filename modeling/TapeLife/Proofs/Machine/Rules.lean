import TapeLife.Proofs.Machine.Bracket

/-!
# Proofs/Machine/Rules — a step is the rule that applies

`Machine.step` decodes an instruction and computes; the rules read a symbol and say what may happen.
Decoding knows the same symbols (`reads_iff`), moving a head around the end has one outcome
(`follows_iff_eq_rightOf`, `follows_iff_eq_leftOf`), and scanning finds partners, so exactly one
rule applies to a machine, with the outcome of `step` (`rule_iff_step_eq`).
-/

namespace TapeLife

variable {n : Nat}

/-! ## Symbols -/

namespace Instruction

/-- The symbol of an instruction that does something. -/
def symbol? : Instruction → Option Char
  | head0Left => some '<'
  | head0Right => some '>'
  | head1Left => some '{'
  | head1Right => some '}'
  | increment => some '+'
  | decrement => some '-'
  | copyOut => some '.'
  | copyIn => some ','
  | loopStart => some '['
  | loopEnd => some ']'
  | load => some '('
  | store => some ')'
  | random => some '?'
  | halt => some '!'
  | idle => none

variable {op : Instruction} {symbol : Char}

theorem ofByte_symbol (h : op.symbol? = some symbol) : ofByte symbol.toUInt8 = op := by
  cases op <;> cases h <;> rfl

theorem symbol?_eq_none_iff : op.symbol? = none ↔ op = idle := by
  cases op <;> simp [symbol?]

/-- **A byte means the instruction whose symbol it is.** -/
theorem symbol?_ofByte (byte : UInt8) :
    (ofByte byte).symbol? = symbols.find? (·.toUInt8 = byte) := by
  have hbytes : ∀ i : Fin 256,
      (ofByte (.ofFin i)).symbol? = symbols.find? (·.toUInt8 = UInt8.ofFin i) := by
    decide +kernel
  simpa using hbytes byte.toFin

end Instruction

namespace Machine

variable {m m₁ m' : Machine n} {i j : Fin n} {op : Instruction} {symbol : Char}
  {why : Option Stop}

theorem instruction_eq (m : Machine n) : m.instruction = .ofByte (m.memory.get m.place) := rfl

theorem reads_iff (op : Instruction) (h : op.symbol? = some symbol) :
    m.Reads symbol ↔ m.instruction = op := by
  constructor
  · intro hread
    rw [instruction_eq, hread, Instruction.ofByte_symbol h]
  · intro hop
    rw [← hop, instruction_eq, Instruction.symbol?_ofByte] at h
    have hfound := List.find?_some h
    exact (of_decide_eq_true hfound).symm

theorem instruction_eq_idle_iff :
    m.instruction = .idle ↔ ∀ symbol ∈ symbols, ¬ m.Reads symbol := by
  rw [← Instruction.symbol?_eq_none_iff, instruction_eq, Instruction.symbol?_ofByte,
    List.find?_eq_none]
  simp [Reads, eq_comm]

theorem isActive_iff : m.IsActive ↔ m.instruction ≠ .idle := by
  simp [IsActive, Ne, instruction_eq_idle_iff]

/-! ## Places -/

theorem val_rightOf : (rightOf i).val = if i.val + 1 = n then 0 else i.val + 1 := by
  change (i.val + 1) % n = _
  split_ifs with hend
  · rw [hend, Nat.mod_self]
  · exact Nat.mod_eq_of_lt (by omega)

theorem val_leftOf : (leftOf i).val = if i.val = 0 then n - 1 else i.val - 1 := by
  change (i.val + (n - 1)) % n = _
  split_ifs with hstart
  · rw [hstart, Nat.zero_add]
    exact Nat.mod_eq_of_lt (by omega)
  · have hback : i.val + (n - 1) = i.val - 1 + n := by omega
    rw [hback, Nat.add_mod_right]
    exact Nat.mod_eq_of_lt (by omega)

theorem follows_iff_eq_rightOf : Follows i j ↔ j = rightOf i := by
  rw [Follows, rightOf, Fin.ext_iff, eq_comm]

theorem follows_iff_eq_leftOf : Follows i j ↔ i = leftOf j := by
  rw [follows_iff_eq_rightOf, Fin.ext_iff, Fin.ext_iff, val_rightOf, val_leftOf]
  split_ifs <;> omega

theorem goesOn_iff : GoesOn m i m' why ↔ m.proceed i = (m', why) := by
  constructor
  · rintro (@⟨j, hj⟩ | hend)
    · have hlt : i.val + 1 < n := hj ▸ j.isLt
      have hnext : (⟨i.val + 1, hlt⟩ : Fin n) = j := Fin.ext hj.symm
      rw [proceed, dif_pos hlt, hnext]
    · rw [proceed, dif_neg (by omega)]
  · intro h
    unfold proceed at h
    split_ifs at h with hlt <;> cases h
    · exact .next rfl
    · exact .ranOff (by omega)

/-! ## One rule applies -/

theorem step_of_acts (h : Acts m m₁) : m.step = m₁.proceed m.place := by
  cases h with
  | head0Left h hj => rw [step, (reads_iff .head0Left rfl).mp h, follows_iff_eq_leftOf.mp hj]
  | head0Right h hj => rw [step, (reads_iff .head0Right rfl).mp h, follows_iff_eq_rightOf.mp hj]
  | head1Left h hj => rw [step, (reads_iff .head1Left rfl).mp h, follows_iff_eq_leftOf.mp hj]
  | head1Right h hj => rw [step, (reads_iff .head1Right rfl).mp h, follows_iff_eq_rightOf.mp hj]
  | increment h => rw [step, (reads_iff .increment rfl).mp h]
  | decrement h => rw [step, (reads_iff .decrement rfl).mp h]
  | copyOut h => rw [step, (reads_iff .copyOut rfl).mp h]
  | copyIn h => rw [step, (reads_iff .copyIn rfl).mp h]; rfl
  | load h => rw [step, (reads_iff .load rfl).mp h]
  | store h => rw [step, (reads_iff .store rfl).mp h]
  | random h => rw [step, (reads_iff .random rfl).mp h]; rfl
  | idle h => rw [step, instruction_eq_idle_iff.mpr h]

theorem rule_step_of_acts (h : Acts m m₁) : Rule m m.step.1 m.step.2 := by
  rw [step_of_acts h]
  exact .act h (goesOn_iff.mpr rfl)

/-! ### Brackets -/

theorem step_enter (h : m.Reads '[') (hdatum : m.datum ≠ 0) : m.step = m.proceed m.place := by
  rw [step, (reads_iff .loopStart rfl).mp h]
  exact if_neg hdatum

theorem step_skip (h : m.Reads '[') (hdatum : m.datum = 0) {c : Fin n}
    (hc : Partners m.memory m.place c) : m.step = m.proceed c := by
  rw [step, (reads_iff .loopStart rfl).mp h]
  simp only [if_pos hdatum, (closingPartner_eq_some_iff h).mpr hc]

theorem step_skip_nowhere (h : m.Reads '[') (hdatum : m.datum = 0)
    (hnone : ∀ c, ¬ Partners m.memory m.place c) : m.step = (m, some .unmatched) := by
  have hscan : closingPartner m.memory m.place = none :=
    Option.eq_none_iff_forall_ne_some.mpr fun c hc =>
      hnone c ((closingPartner_eq_some_iff h).mp hc)
  rw [step, (reads_iff .loopStart rfl).mp h]
  simp only [if_pos hdatum, hscan]

theorem step_leave (h : m.Reads ']') (hdatum : m.datum = 0) : m.step = m.proceed m.place := by
  rw [step, (reads_iff .loopEnd rfl).mp h]
  exact if_neg (not_not.mpr hdatum)

theorem step_again (h : m.Reads ']') (hdatum : m.datum ≠ 0) {o : Fin n}
    (ho : Partners m.memory o m.place) : m.step = m.proceed o := by
  rw [step, (reads_iff .loopEnd rfl).mp h]
  simp only [if_pos hdatum, (openingPartner_eq_some_iff h).mpr ho]

theorem step_again_nowhere (h : m.Reads ']') (hdatum : m.datum ≠ 0)
    (hnone : ∀ o, ¬ Partners m.memory o m.place) : m.step = (m, some .unmatched) := by
  have hscan : openingPartner m.memory m.place = none :=
    Option.eq_none_iff_forall_ne_some.mpr fun o ho =>
      hnone o ((openingPartner_eq_some_iff h).mp ho)
  rw [step, (reads_iff .loopEnd rfl).mp h]
  simp only [if_pos hdatum, hscan]

/-! ### All instructions -/

/-- The step is an outcome that the rules allow. -/
theorem rule_step (m : Machine n) : Rule m m.step.1 m.step.2 := by
  cases hop : m.instruction with
  | head0Left =>
    exact rule_step_of_acts (.head0Left ((reads_iff _ rfl).mpr hop) (follows_iff_eq_leftOf.mpr rfl))
  | head0Right =>
    exact rule_step_of_acts
      (.head0Right ((reads_iff _ rfl).mpr hop) (follows_iff_eq_rightOf.mpr rfl))
  | head1Left =>
    exact rule_step_of_acts (.head1Left ((reads_iff _ rfl).mpr hop) (follows_iff_eq_leftOf.mpr rfl))
  | head1Right =>
    exact rule_step_of_acts
      (.head1Right ((reads_iff _ rfl).mpr hop) (follows_iff_eq_rightOf.mpr rfl))
  | increment => exact rule_step_of_acts (.increment ((reads_iff _ rfl).mpr hop))
  | decrement => exact rule_step_of_acts (.decrement ((reads_iff _ rfl).mpr hop))
  | copyOut => exact rule_step_of_acts (.copyOut ((reads_iff _ rfl).mpr hop))
  | copyIn => exact rule_step_of_acts (.copyIn ((reads_iff _ rfl).mpr hop))
  | load => exact rule_step_of_acts (.load ((reads_iff _ rfl).mpr hop))
  | store => exact rule_step_of_acts (.store ((reads_iff _ rfl).mpr hop))
  | random => exact rule_step_of_acts (.random ((reads_iff _ rfl).mpr hop))
  | idle => exact rule_step_of_acts (.idle (instruction_eq_idle_iff.mp hop))
  | halt =>
    rw [step, hop]
    exact .halt ((reads_iff _ rfl).mpr hop)
  | loopStart =>
    have hread : m.Reads '[' := (reads_iff _ rfl).mpr hop
    by_cases hdatum : m.datum = 0
    · by_cases hc : ∃ c, Partners m.memory m.place c
      · obtain ⟨c, hc⟩ := hc
        rw [step_skip hread hdatum hc]
        exact .skip hread hdatum hc (goesOn_iff.mpr rfl)
      · rw [step_skip_nowhere hread hdatum (not_exists.mp hc)]
        exact .skipNowhere hread hdatum (not_exists.mp hc)
    · rw [step_enter hread hdatum]
      exact .enter hread hdatum (goesOn_iff.mpr rfl)
  | loopEnd =>
    have hread : m.Reads ']' := (reads_iff _ rfl).mpr hop
    by_cases hdatum : m.datum = 0
    · rw [step_leave hread hdatum]
      exact .leave hread hdatum (goesOn_iff.mpr rfl)
    · by_cases ho : ∃ o, Partners m.memory o m.place
      · obtain ⟨o, ho⟩ := ho
        rw [step_again hread hdatum ho]
        exact .again hread hdatum ho (goesOn_iff.mpr rfl)
      · rw [step_again_nowhere hread hdatum (not_exists.mp ho)]
        exact .againNowhere hread hdatum (not_exists.mp ho)

/-- **One rule applies to a machine, with the outcome of its step.** -/
theorem rule_iff_step_eq : Rule m m' why ↔ m.step = (m', why) := by
  constructor
  · intro h
    cases h with
    | act hacts hgo => rw [step_of_acts hacts, goesOn_iff.mp hgo]
    | halt hread => rw [step, (reads_iff .halt rfl).mp hread]
    | enter hread hdatum hgo => rw [step_enter hread hdatum, goesOn_iff.mp hgo]
    | skip hread hdatum hc hgo => rw [step_skip hread hdatum hc, goesOn_iff.mp hgo]
    | skipNowhere hread hdatum hnone => exact step_skip_nowhere hread hdatum hnone
    | leave hread hdatum hgo => rw [step_leave hread hdatum, goesOn_iff.mp hgo]
    | again hread hdatum ho hgo => rw [step_again hread hdatum ho, goesOn_iff.mp hgo]
    | againNowhere hread hdatum hnone => exact step_again_nowhere hread hdatum hnone
  · intro h
    have hrule := rule_step m
    rwa [h] at hrule

end Machine

end TapeLife
