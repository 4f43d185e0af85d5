import TapeLife.Proofs.Pairing.Planning

/-!
# Proofs/Pairing/Refusals — what is refused stays refused

    p ──turn──▸ p' ──turn──▸ … ──turn──▸ plan      cells are taken on the way, and never given back

Turns take locks and release none (`Planning.Later`).  So a cell that is free at the end was free in
its turn, and whatever refused it then refuses it still: when the turns end before enough pairs
exist, nobody who is left could have been paired (`Planning.taken_of_free`).  For the same reason an
abandoned candidate never becomes a pair, either way round: one of its cells is in no pair so far,
and the other is taken from now on (`Planning.Settled`).
-/

namespace TapeLife

theorem Locks.isFree_hold {locks : Locks} {a b i : Nat} :
    (locks.hold a b).isFree i = true ↔ locks.isFree i = true ∧ i ≠ a ∧ i ≠ b := by
  rw [isFree_iff, isFree_iff, getElem?_hold]
  cases locks[i]? <;> simp

namespace Planning

variable {p p' p'' : Planning} {limit cell other : Nat} {partners : Nat → List Nat}

/-- **What a turn can do**: nothing, because enough pairs exist or the cell is taken; abandon all
partners of the cell, because all refuse it; or form a pair with the first that does not. -/
theorem turn_cases (p : Planning) (limit : Nat) (partners : Nat → List Nat) (cell : Nat) :
    ((limit ≤ p.formed.size ∨ p.locks.isFree cell = false) ∧ p.turn limit partners cell = p) ∨
      p.locks.isFree cell = true ∧ (∀ other ∈ partners cell, Refuses p.locks cell other) ∧
        p.turn limit partners cell = p.abandon (inVain cell (partners cell)) ∨
      p.locks.isFree cell = true ∧ ∃ tried other, (∀ o ∈ tried, Refuses p.locks cell o) ∧
        p.locks.isClaimable cell other = true ∧
        p.turn limit partners cell = (p.abandon (inVain cell tried)).form ⟨cell, other⟩ := by
  by_cases hidle : limit ≤ p.formed.size ∨ p.locks.isFree cell = false
  · exact .inl ⟨hidle, by rw [turn, if_pos]; simpa using hidle⟩
  · have hfree : p.locks.isFree cell = true := by simpa using (not_or.mp hidle).2
    have hturn : p.turn limit partners cell = p.pairUp cell (partners cell) := by
      rw [turn, if_neg]; simpa using hidle
    rw [hturn]
    obtain ⟨hall, heq⟩ | ⟨tried, other, rest, -, htried, hclaim, heq⟩ :=
      p.pairUp_cases cell (partners cell)
    · exact .inr (.inl ⟨hfree, hall, heq⟩)
    · exact .inr (.inr ⟨hfree, tried, other, htried, hclaim, heq⟩)

/-- A cell that is free is refused by itself or by a cell that is taken. -/
theorem Refuses.taken {locks : Locks} (h : Refuses locks cell other)
    (hfree : locks.isFree cell = true) : other = cell ∨ locks.isFree other = false := by
  by_cases hself : other = cell
  · exact .inl hself
  · have hclaim := h.resolve_left hself
    simp only [Locks.isClaimable, hfree, bne_iff_ne.mpr (Ne.symm hself), Bool.true_and] at hclaim
    exact .inr hclaim

/-! ## Taken cells stay taken -/

/-- A plan in the making that may come after another: no cell was released, and no pair is lost. -/
structure Later (p p' : Planning) : Prop where
  free : ∀ i, p'.locks.isFree i = true → p.locks.isFree i = true
  size_le : p.formed.size ≤ p'.formed.size

theorem Later.refl (p : Planning) : p.Later p := ⟨fun _ h => h, Nat.le_refl _⟩

theorem Later.trans (h : p.Later p') (h' : p'.Later p'') : p.Later p'' :=
  ⟨fun i hi => h.free i (h'.free i hi), h.size_le.trans h'.size_le⟩

theorem Later.taken (h : p.Later p') {i : Nat} (hi : p.locks.isFree i = false) :
    p'.locks.isFree i = false := by
  by_contra hfree
  rw [h.free i (Bool.not_eq_false _ ▸ hfree)] at hi
  cases hi

theorem later_abandon (p : Planning) (pairs : List Pair) : p.Later (p.abandon pairs) :=
  ⟨fun _ h => h, Nat.le_refl _⟩

theorem later_form (p : Planning) (pair : Pair) : p.Later (p.form pair) where
  free _ h := (Locks.isFree_hold.mp h).1
  size_le := by rw [form, Array.size_push]; exact Nat.le_succ _

theorem later_turn (p : Planning) (limit : Nat) (partners : Nat → List Nat) (cell : Nat) :
    p.Later (p.turn limit partners cell) := by
  obtain ⟨-, heq⟩ | ⟨-, -, heq⟩ | ⟨-, tried, other, -, -, heq⟩ := p.turn_cases limit partners cell
  all_goals rw [heq]
  exacts [.refl p, p.later_abandon _, (p.later_abandon _).trans (later_form _ _)]

theorem later_foldl_turn (limit : Nat) (partners : Nat → List Nat) (order : List Nat)
    (p : Planning) : p.Later (order.foldl (turn limit partners) p) := by
  induction order generalizing p with
  | nil => exact .refl p
  | cons cell order ih => exact (p.later_turn limit partners cell).trans (ih _)

/-- **Nobody is missed**: when the turns end before enough pairs exist, the partners of a cell that
is still free are the cell itself or taken. -/
theorem taken_of_free {order : List Nat}
    (hroom : (order.foldl (turn limit partners) p).formed.size < limit) (hcell : cell ∈ order)
    (hfree : (order.foldl (turn limit partners) p).locks.isFree cell = true)
    (hother : other ∈ partners cell) :
    other = cell ∨ (order.foldl (turn limit partners) p).locks.isFree other = false := by
  induction order generalizing p with
  | nil => simp at hcell
  | cons first order ih =>
    rw [List.foldl_cons] at hroom hfree ⊢
    obtain rfl | hcell := List.mem_cons.mp hcell
    · have hlater := later_foldl_turn limit partners order (p.turn limit partners cell)
      have hturn := hlater.free cell hfree
      obtain ⟨hidle, heq⟩ | ⟨hcell, hall, heq⟩ | ⟨-, tried, o, -, -, heq⟩ :=
        p.turn_cases limit partners cell
      · rw [heq] at hturn
        have hsize := (p.later_turn limit partners cell).size_le.trans hlater.size_le
        rcases hidle with hfull | htaken
        · omega
        · simp [hturn] at htaken
      · refine ((hall other hother).taken hcell).imp_right fun htaken => hlater.taken ?_
        rw [heq]
        exact htaken
      · rw [heq] at hturn
        exact absurd rfl (Locks.isFree_hold.mp hturn).2.1
    · exact ih hroom hcell hfree

/-! ## Abandoned candidates stay apart -/

/-- The cells of pairs are taken, and of an abandoned candidate the partner is taken and the two
cells are not in one pair. -/
structure Settled (p : Planning) : Prop where
  formed_taken : ∀ pair ∈ p.formed.toList, ∀ i ∈ pair.cells, p.locks.isFree i = false
  partner_taken : ∀ pair ∈ p.abandoned.toList, p.locks.isFree pair.partner = false
  apart : ∀ pair ∈ p.abandoned.toList, ∀ formed ∈ p.formed.toList,
    ¬ (pair.initiator ∈ formed.cells ∧ pair.partner ∈ formed.cells)

theorem mem_inVain {tried : List Nat} {pair : Pair} :
    pair ∈ inVain cell tried ↔
      pair.initiator = cell ∧ pair.partner ∈ tried ∧ pair.partner ≠ cell := by
  obtain ⟨a, b⟩ := pair
  simp only [inVain, List.mem_map, List.mem_filter, decide_eq_true_eq, Pair.mk.injEq]
  constructor
  · rintro ⟨o, ⟨ho, hne⟩, rfl, rfl⟩
    exact ⟨rfl, ho, hne⟩
  · rintro ⟨rfl, ho, hne⟩
    exact ⟨b, ⟨ho, hne⟩, rfl, rfl⟩

theorem mem_abandoned_abandon {pairs : List Pair} {pair : Pair} :
    pair ∈ (p.abandon pairs).abandoned.toList ↔ pair ∈ p.abandoned.toList ∨ pair ∈ pairs := by
  simp [Planning.abandon]

theorem mem_formed_form {pair formed : Pair} :
    formed ∈ (p.form pair).formed.toList ↔ formed ∈ p.formed.toList ∨ formed = pair := by
  simp [Planning.form]

theorem Settled.abandon (h : p.Settled) (hfree : p.locks.isFree cell = true) {tried : List Nat}
    (htried : ∀ o ∈ tried, Refuses p.locks cell o) : (p.abandon (inVain cell tried)).Settled where
  formed_taken := h.formed_taken
  partner_taken pair hpair := by
    obtain hold | hnew := mem_abandoned_abandon.mp hpair
    · exact h.partner_taken pair hold
    · obtain ⟨-, hmem, hne⟩ := mem_inVain.mp hnew
      exact ((htried pair.partner hmem).taken hfree).resolve_left hne
  apart pair hpair formed hformed hcells := by
    obtain hold | hnew := mem_abandoned_abandon.mp hpair
    · exact h.apart pair hold formed hformed hcells
    · -- the cell has its turn, so it is in no pair yet
      obtain ⟨hcell, -, -⟩ := mem_inVain.mp hnew
      have htaken := h.formed_taken formed hformed pair.initiator hcells.1
      rw [hcell, hfree] at htaken
      cases htaken

theorem Settled.form (h : p.Settled) {pair : Pair}
    (hclaim : p.locks.isClaimable pair.initiator pair.partner = true) : (p.form pair).Settled where
  formed_taken formed hformed i hi := by
    obtain hold | rfl := mem_formed_form.mp hformed
    · exact (p.later_form pair).taken (h.formed_taken formed hold i hi)
    · refine Bool.eq_false_iff.mpr fun hfree => ?_
      obtain ⟨-, ha, hb⟩ := Locks.isFree_hold.mp hfree
      exact (Pair.mem_cells.mp hi).elim ha hb
  partner_taken other hother := (p.later_form pair).taken (h.partner_taken other hother)
  apart other hother formed hformed hcells := by
    obtain hold | rfl := mem_formed_form.mp hformed
    · exact h.apart other hother formed hold hcells
    · -- both cells of a new pair were free, and the partner of an abandoned one is not
      obtain ⟨-, ha, hb⟩ := Locks.isClaimable_iff.mp hclaim
      have htaken := h.partner_taken other hother
      obtain heq | heq := Pair.mem_cells.mp hcells.2
      · rw [heq, ha] at htaken
        cases htaken
      · rw [heq, hb] at htaken
        cases htaken

/-- **A turn abandons nobody who is or will be its cell's partner.** -/
theorem Settled.turn (h : p.Settled) (limit : Nat) (partners : Nat → List Nat) (cell : Nat) :
    (p.turn limit partners cell).Settled := by
  obtain ⟨-, heq⟩ | ⟨hfree, hall, heq⟩ | ⟨hfree, tried, other, htried, hclaim, heq⟩ :=
    p.turn_cases limit partners cell
  all_goals rw [heq]
  · exact h
  · exact h.abandon hfree hall
  · exact (h.abandon hfree htried).form hclaim

theorem Settled.foldl_turn (h : p.Settled) (limit : Nat) (partners : Nat → List Nat)
    (order : List Nat) : (order.foldl (Planning.turn limit partners) p).Settled := by
  induction order generalizing p with
  | nil => exact h
  | cons cell order ih => exact ih (h.turn limit partners cell)

end Planning

/-! ## Whole plans -/

namespace Plan

variable {torus : Torus} {radius : Nat} {key : UInt64} {before : Locks}

/-- **A plan with room for more pairs leaves nobody free who could get a partner.** -/
theorem taken_of_free_make (hradius : radius ≠ 0) (hsize : 2 ≤ before.size)
    (hroom : (make torus radius key before).1.formed.length < pairLimit before.size)
    {cell other : Nat} (hcell : cell < before.size)
    (hfree : (make torus radius key before).2.isFree cell = true)
    (hother : other ∈ candidates torus radius key cell) :
    other = cell ∨ (make torus radius key before).2.isFree other = false := by
  have hgo : ¬ (radius = 0 ∨ before.size < 2) := by omega
  rw [make, if_neg hgo] at hroom hfree ⊢
  exact Planning.taken_of_free (by simpa using hroom) (mem_keyedOrder.mpr hcell) hfree hother

/-- **The cells of an abandoned candidate are never in one pair.** -/
theorem apart_make {pair formed : Pair} (hpair : pair ∈ (make torus radius key before).1.abandoned)
    (hformed : formed ∈ (make torus radius key before).1.formed) :
    ¬ (pair.initiator ∈ formed.cells ∧ pair.partner ∈ formed.cells) := by
  rw [make] at hpair hformed
  split_ifs at hpair hformed with hidle
  · simp at hpair
  · have hstart : (Planning.mk before #[] #[]).Settled := ⟨by simp, by simp, by simp⟩
    exact (hstart.foldl_turn _ _ _).apart pair hpair formed hformed

end Plan

end TapeLife
