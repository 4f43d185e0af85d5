import Mathlib.Tactic.SplitIfs
import TapeLife.Guarded.Pairing
import TapeLife.Proofs.Pairing.Attempts

/-!
# Proofs/Guarded/Pairing — planning on words and arrays never faults

    at most 2^31 - 1 cells, a radius of at most 2^15
        ──▸ every remainder has a divisor, every sum fits, every place is in its array

Valid parameters bound the torus and the radius (`area_lt`, `radius_le`), and with them everything
that planning computes: the places of the shuffle, the numbers of a window, columns and rows that
go below zero before they wrap, the counts of pairs and of refusals.  So the drafts of a plan are
those of the planning without bounds (`turns_eq`), and the plan is (`plan_eq`).
-/

namespace TapeLife

namespace Guarded

/-! ## The order of turns -/

theorem exchange_toArray {n i j : Nat} (order : Vector Nat n) (hi : i < n) (hj : j < n) :
    exchange order.toArray i j = .ok (order.swap i j hi hj).toArray := by
  have hread : ∀ k (hk : k < n), read order.toArray k = .ok order[k] := fun k hk =>
    read_of_getElem? (by simp [hk])
  rw [exchange, hread i hi, ok_bind, hread j hj, ok_bind, write_of_lt (by simpa), ok_bind,
    write_of_lt (by simpa)]
  congr 1
  simp [Array.swap, Array.setIfInBounds, hi, hj]

/-- **The places settled by exchanges are those of the shuffle**, which exchanges the first place
with itself at last. -/
theorem settle_eq {n : Nat} (hsize : n < UInt64.size) (key : UInt64) {last : Nat} (h : last < n)
    (order : Vector Nat n) :
    settle key last order.toArray = .ok (shuffleFirst key (last + 1) h order).toArray := by
  induction last generalizing order with
  | zero =>
    have hfirst : exchangePlace key 0 = 0 := Nat.mod_one _
    have hj : exchangePlace key 0 < n := Nat.lt_of_le_of_lt (exchangePlace_le key 0) h
    have hself : shuffleFirst key 1 h order = order := by
      refine Vector.ext fun i hi => ?_
      change (order.swap 0 (exchangePlace key 0) h hj)[i] = _
      rw [Vector.getElem_swap]
      simp only [hfirst]
      split_ifs with hzero
      · simp [hzero]
      · rfl
    rw [settle, hself]
  | succ i ih =>
    have hplace : rem (mix64 (key ^^^ mix64 (UInt64.ofNat (i + 1)))).toNat (i + 1 + 1)
        = .ok (exchangePlace key (i + 1)) := rem_of_pos (Nat.succ_pos _) _
    rw [settle, add_of_lt (by omega), ok_bind, hplace, ok_bind, exchange_toArray order h
      (Nat.lt_of_le_of_lt (exchangePlace_le key (i + 1)) h), ok_bind, ih (by omega)]
    rfl

theorem order_eq {n : Nat} (hsize : n < UInt64.size) (key : UInt64) :
    order n key = .ok (keyedOrder n key).toArray := by
  rw [order, keyedOrder, shuffle]
  cases n with
  | zero => rfl
  | succ n =>
    rw [Vector.toArray_toList]
    exact settle_eq hsize key (Nat.lt_succ_self n) (Vector.range (n + 1))

/-! ## Partners -/

variable {p : Params} (hp : p.Valid)
include hp

theorem area_lt : p.torus.area < 0x80000000 :=
  Nat.lt_of_le_of_lt hp.cellCount_le (by decide)

theorem radius_le : p.maxDist.toNat ≤ 32768 := UInt32.le_iff_toNat_le.mp hp.maxDist_le

theorem width_lt : p.torus.width < 0x80000000 :=
  (Nat.le_mul_of_pos_right _ hp.height_pos).trans_lt (area_lt hp)

theorem height_lt : p.torus.height < 0x80000000 :=
  (Nat.le_mul_of_pos_left _ hp.width_pos).trans_lt (area_lt hp)

theorem rem_width (cell : Nat) : rem cell p.torus.width = .ok (p.torus.column cell) :=
  rem_of_pos hp.width_pos cell

theorem quot_width (cell : Nat) : quot cell p.torus.width = .ok (p.torus.row cell) :=
  quot_of_pos hp.width_pos cell

/-- The offset of a place is found without a fault. -/
theorem offsetAt_eq {side place : Nat} (hside : 0 < side) (hplace : place < 0x8000000000000000) :
    offsetAt p.maxDist.toNat side place = .ok (((place % side : Nat) : Int) - p.maxDist.toNat,
      ((place / side : Nat) : Int) - p.maxDist.toNat) := by
  have hradius : p.maxDist.toNat < 0x8000000000000000 :=
    Nat.lt_of_le_of_lt (radius_le hp) (by decide)
  have hmod := Nat.lt_of_le_of_lt (Nat.mod_le place side) hplace
  have hdiv := Nat.lt_of_le_of_lt (Nat.div_le_self place side) hplace
  rw [offsetAt, rem_of_pos hside, ok_bind, signed_natCast hmod, ok_bind, signed_natCast hradius,
    ok_bind, subSigned_natCast hmod hradius, ok_bind, quot_of_pos hside, ok_bind,
    signed_natCast hdiv, ok_bind, ok_bind, subSigned_natCast hdiv hradius, ok_bind, pure_eq_ok]

/-- **The offset of a partner is found without a fault.** -/
theorem offset_eq (hr : p.maxDist.toNat ≠ 0) (key : UInt64) {cell attempt : Nat}
    (hcell : cell < p.torus.area) (hattempt : attempt < attemptsPerCell) :
    offset p.maxDist.toNat key cell attempt = .ok (windowOffset p.maxDist.toNat
      ((mix64 (partnerWord key cell attempt)).toNat % windowSize p.maxDist.toNat)) := by
  have harea := area_lt hp
  have hradius := radius_le hp
  have hpos := windowSize_pos hr
  have hword : UInt64.size = 18446744073709551616 := rfl
  have hcentre : windowSide p.maxDist.toNat ≤ 65537 := by rw [windowSide]; omega
  have hside : 0 < windowSide p.maxDist.toNat := Nat.succ_pos _
  have hwindow : sub (windowSide p.maxDist.toNat * windowSide p.maxDist.toNat) 1
      = .ok (windowSize p.maxDist.toNat) := sub_of_le (Nat.mul_pos hside hside)
  have hsquare : windowSide p.maxDist.toNat * windowSide p.maxDist.toNat ≤ 65537 * 65537 :=
    Nat.mul_le_mul hcentre hcentre
  have hplace := fun place => @offsetAt_eq p hp (windowSide p.maxDist.toNat) place hside
  generalize p.maxDist.toNat = radius at *
  have hcentre : radius * windowSide radius ≤ 32768 * 65537 := Nat.mul_le_mul hradius hcentre
  have hcells : cell * attemptsPerCell + attempt < UInt64.size := by
    rw [attemptsPerCell] at *
    omega
  have hdraw : rem (mix64 (turnLeft key 17 ^^^
      mix64 (UInt64.ofNat (cell * attemptsPerCell + attempt)))).toNat (windowSize radius)
        = .ok ((mix64 (partnerWord key cell attempt)).toNat % windowSize radius) :=
    rem_of_pos hpos _
  have hlt := Nat.mod_lt (mix64 (partnerWord key cell attempt)).toNat hpos
  generalize (mix64 (partnerWord key cell attempt)).toNat % windowSize radius = number at *
  rw [offset, mul_of_lt (by omega), ok_bind, show add (2 * radius) 1 = .ok (windowSide radius) from
    add_of_lt (by omega), ok_bind, mul_of_lt (by omega), ok_bind, add_of_lt (by omega), ok_bind,
    mul_of_lt (Nat.lt_of_le_of_lt (Nat.le_add_right _ _) hcells), ok_bind, add_of_lt hcells,
    ok_bind, mul_of_lt (by omega), ok_bind, hwindow, ok_bind, hdraw, ok_bind, windowOffset]
  rw [windowSize] at hlt
  -- The centre is skipped.
  split_ifs
  · rw [add_of_lt (by omega), ok_bind]
    exact hplace _ (by omega)
  · rw [pure_eq_ok, ok_bind]
    exact hplace _ (by omega)

/-- **A step around the edges is found without a fault.** -/
theorem shift_eq {cell : Nat} (hcell : cell < p.torus.area) {dx dy : Int}
    (hx : dx.natAbs ≤ p.maxDist.toNat) (hy : dy.natAbs ≤ p.maxDist.toNat) :
    shift p.torus (p.torus.column cell) (p.torus.row cell) dx dy
      = .ok (p.torus.shift cell dx dy) := by
  have harea := area_lt hp
  have hradius := radius_le hp
  have hwidth := width_lt hp
  have hheight := height_lt hp
  have hword : UInt64.size = 18446744073709551616 := rfl
  have hcolumn := Torus.column_lt (t := p.torus) hp.width_pos cell
  have hrow := Torus.row_lt hcell
  have hw : (0 : Int) < p.torus.width := Int.natCast_pos.mpr hp.width_pos
  have hh : (0 : Int) < p.torus.height := Int.natCast_pos.mpr hp.height_pos
  have hlast := Torus.shift_lt_area hcell dx dy
  rw [Torus.shift, Torus.index] at hlast ⊢
  rw [shift, addSigned_natCast (by omega) (by omega), ok_bind, signed_natCast (by omega), ok_bind,
    remSigned_of_pos hw, ok_bind, unsigned_of_nonneg (Int.emod_nonneg _ hw.ne'), ok_bind,
    addSigned_natCast (by omega) (by omega), ok_bind, signed_natCast (by omega), ok_bind,
    remSigned_of_pos hh, ok_bind, unsigned_of_nonneg (Int.emod_nonneg _ hh.ne'), ok_bind,
    mul_of_lt (by omega), ok_bind, add_of_lt (by omega)]

/-- The distance of two cells is found without a fault. -/
theorem distance_eq {a b : Nat} (ha : a < p.torus.area) (hb : b < p.torus.area) :
    distance p.torus a b = .ok (p.torus.distance a b) := by
  have hwidth : 0 < p.torus.width := hp.width_pos
  -- Both places are on their circle, and so is the way between them.
  have hway : ∀ {size x y : Nat}, x < size → y < size → max x y - min x y ≤ size := by omega
  have hx := hway (Torus.column_lt hwidth a) (Torus.column_lt hwidth b)
  have hy := hway (Torus.row_lt ha) (Torus.row_lt hb)
  rw [distance, rem_width hp, ok_bind, quot_width hp, ok_bind, rem_width hp, ok_bind,
    quot_width hp, ok_bind]
  dsimp only
  rw [sub_of_le hx, ok_bind, sub_of_le hy]
  rfl

/-! ## Claims and buffers -/

omit hp in
theorem isFree_eq_not {locks : Locks} {i : Nat} (hi : i < locks.size) :
    locks.isFree i = !locks[i] := by
  rw [Locks.isFree, Array.getElem?_eq_getElem hi]
  cases locks[i] <;> rfl

omit hp in
/-- **A claim looks at locks that are there**, and is granted if both cells can be claimed. -/
theorem claim_eq {locks : Locks} {a b : Nat} (ha : a < locks.size) (hb : b < locks.size) :
    claim locks a b = .ok (if locks.isClaimable a b then (locks.hold a b, true)
      else (locks, false)) := by
  have hread : ∀ i (hi : i < locks.size), read locks i = .ok locks[i] := fun i hi =>
    read_of_getElem? (Array.getElem?_eq_getElem hi)
  rw [claim, Locks.isClaimable, isFree_eq_not ha, isFree_eq_not hb, hread a ha, ok_bind,
    hread b hb, ok_bind, write_of_lt ha, ok_bind, write_of_lt (by simpa using hb), ok_bind, Locks.hold]
  by_cases hab : a = b
  · simp [hab]
  · cases locks[a] <;> cases locks[b] <;> simp [hab]

theorem stripe_eq (pair : Pair) : stripe p.torus.width pair = .ok (pair.stripe p.torus.width) := by
  rw [stripe, rem_width hp, ok_bind, quot_width hp, ok_bind, rem_width hp, ok_bind, quot_width hp,
    ok_bind]
  exact rem_of_pos (by decide) _

/-- The buffers of pairs. -/
def buffersOf (width : Nat) (formed : List Pair) : Buffers :=
  (Plan.mk width formed []).stripes.toArray

/-- **A pair has a buffer.** -/
theorem push_eq (formed : List Pair) (pair : Pair) :
    push p.torus.width (buffersOf p.torus.width formed) pair
      = .ok (buffersOf p.torus.width (formed ++ [pair])) := by
  have hlt := Plan.stripe_lt p.torus.width pair
  have hbuffer := Plan.getElem?_stripes ⟨p.torus.width, formed, []⟩ hlt
  rw [push, stripe_eq hp, ok_bind, buffersOf,
    read_of_getElem? (by rw [List.getElem?_toArray, hbuffer]), ok_bind,
    write_of_lt (by simpa [Plan.stripes] using hlt), buffersOf, Plan.stripes_concat, pushOnto]
  congr 1
  refine Array.ext_getElem? fun k => ?_
  rw [List.setIfInBounds_toArray, List.getElem?_toArray, List.getElem?_toArray,
    List.getElem?_modify, List.getElem?_set]
  by_cases hk : pair.stripe p.torus.width = k
  · subst hk
    simp [hlt, Plan.stripes]
  · simp [hk]

/-! ## Turns -/

/-- A plan in the making, with its pairs in buffers. -/
def draftOf (width : Nat) (planning : Planning) : Draft where
  locks := planning.locks
  buffers := buffersOf width planning.formed.toList
  formed := planning.formed.size
  dropped := planning.abandoned.size

omit hp in
@[simp] theorem draftOf_locks (width : Nat) (planning : Planning) :
    (draftOf width planning).locks = planning.locks := rfl

omit hp in
@[simp] theorem draftOf_formed (width : Nat) (planning : Planning) :
    (draftOf width planning).formed = planning.formed.size := rfl

omit hp in
@[simp] theorem draftOf_dropped (width : Nat) (planning : Planning) :
    (draftOf width planning).dropped = planning.abandoned.size := rfl

/-- **A cell tries its partners without a fault.** -/
theorem attempt_eq (hr : p.maxDist.toNat ≠ 0) (key : UInt64) {cell : Nat}
    (hcell : cell < p.torus.area) {numbers : List Nat}
    (hnumbers : ∀ n ∈ numbers, n < attemptsPerCell) {planning : Planning}
    (hsize : planning.locks.size = p.torus.area)
    (hformed : planning.formed.size + 1 < UInt64.size)
    (hdropped : planning.abandoned.size + numbers.length < UInt64.size) :
    attempt p.torus p.maxDist.toNat key cell (p.torus.column cell) (p.torus.row cell) numbers
        (draftOf p.torus.width planning)
      = .ok (draftOf p.torus.width (planning.pairUp cell
          (numbers.map (candidate p.torus p.maxDist.toNat key cell)))) := by
  induction numbers generalizing planning with
  | nil => rfl
  | cons number rest ih =>
    obtain ⟨hnumber, hrest⟩ := List.forall_mem_cons.mp hnumbers
    rw [List.length_cons] at hdropped
    have hoffset := windowOffset_natAbs_le (Nat.mod_lt
      (mix64 (partnerWord key cell number)).toNat (windowSize_pos hr))
    have hother : shift p.torus (p.torus.column cell) (p.torus.row cell) _ _
        = .ok (candidate p.torus p.maxDist.toNat key cell number) :=
      shift_eq hp hcell hoffset.1 hoffset.2
    have hlt : candidate p.torus p.maxDist.toNat key cell number < p.torus.area :=
      Torus.shift_lt_area hcell _ _
    rw [attempt, offset_eq hp hr key hcell hnumber, ok_bind]
    dsimp only
    rw [hother, ok_bind, List.map_cons, Planning.pairUp]
    generalize candidate p.torus p.maxDist.toNat key cell number = other at hlt
    by_cases hself : other = cell
    · rw [if_pos hself, if_pos hself]
      exact ih hrest hsize hformed (by omega)
    rw [if_neg hself, if_neg hself, draftOf_locks, claim_eq (hsize ▸ hcell) (hsize ▸ hlt), ok_bind]
    by_cases hclaim : planning.locks.isClaimable cell other = true
    · have hpush : push p.torus.width (draftOf p.torus.width planning).buffers ⟨cell, other⟩ = _ :=
        push_eq hp planning.formed.toList ⟨cell, other⟩
      rw [hpush, draftOf_formed, add_of_lt hformed]
      simp [draftOf, hclaim]
    · have hnext := @ih hrest { planning with abandoned := planning.abandoned.push ⟨cell, other⟩ }
        hsize hformed (by rw [Array.size_push]; omega)
      rw [draftOf_dropped, add_of_lt (show planning.abandoned.size + 1 < UInt64.size by omega),
        if_neg hclaim, if_neg hclaim, ← hnext]
      simp [draftOf]

/-- **The turns are taken without a fault**, and end as they end without bounds. -/
theorem turns_eq (hr : p.maxDist.toNat ≠ 0) (key : UInt64) {limit : Nat}
    (hlimit : limit < UInt64.size) {before : Locks} (hbefore : before.size = p.torus.area)
    {order : List Nat} (horder : ∀ cell ∈ order, cell < p.torus.area) {planning : Planning}
    (hsound : planning.Sound p.torus p.maxDist.toNat before)
    (hformed : planning.formed.size ≤ limit)
    (hdropped : planning.abandoned.size + order.length * attemptsPerCell < UInt64.size) :
    turns p.torus p.maxDist.toNat key limit order (draftOf p.torus.width planning)
      = .ok (draftOf p.torus.width (order.foldl
          (Planning.turn limit (candidates p.torus p.maxDist.toNat key)) planning)) := by
  induction order generalizing planning with
  | nil => rfl
  | cons cell order ih =>
    obtain ⟨hcell, hrest⟩ := List.forall_mem_cons.mp horder
    have hsize : planning.locks.size = p.torus.area := hsound.holding.size_eq.trans hbefore
    rw [turns]
    by_cases hfull : limit ≤ planning.formed.size
    · rw [draftOf_formed, if_pos hfull, Planning.foldl_turn_of_full hfull, pure_eq_ok]
    obtain ⟨hturn, hroom⟩ := hsound.turn hr hformed key hcell
    have hmost := planning.size_abandoned_turn_le limit
      (candidates p.torus p.maxDist.toNat key) cell
    have hnext := ih hrest hturn hroom (by
      rw [List.length_cons, Nat.succ_mul] at hdropped
      simp only [candidates, List.length_map, List.length_range] at hmost ⊢
      omega)
    have hread : read planning.locks cell = .ok planning.locks[cell] :=
      read_of_getElem? (Array.getElem?_eq_getElem (hsize ▸ hcell))
    have hfree := isFree_eq_not (hsize ▸ hcell : cell < planning.locks.size)
    rw [draftOf_formed, if_neg hfull, draftOf_locks, hread, ok_bind, List.foldl_cons, ← hnext]
    by_cases htaken : planning.locks[cell] = true
    · rw [if_pos htaken, Planning.turn, hfree, htaken]
      simp
    · have hcolumn : p.torus.column cell < 0x8000000000000000 :=
        (Torus.column_lt hp.width_pos cell).trans ((width_lt hp).trans (by decide))
      have hrow : p.torus.row cell < 0x8000000000000000 :=
        (Torus.row_lt hcell).trans ((height_lt hp).trans (by decide))
      rw [List.length_cons, Nat.succ_mul] at hdropped
      rw [if_neg htaken, rem_width hp, ok_bind, signed_natCast hcolumn, ok_bind, quot_width hp,
        ok_bind, signed_natCast hrow, ok_bind, attempt_eq hp hr key hcell
          (fun n => List.mem_range.mp) hsize (by omega) (by rw [List.length_range]; omega),
        ok_bind, Planning.turn, hfree]
      simp [htaken, hfull, candidates]

/-- **An epoch is planned without a fault**, and the plan is the one without bounds. -/
theorem plan_eq (key : UInt64) {locks : Locks} (hlocks : locks.size = p.torus.area) :
    let planned := Plan.make p.torus p.maxDist.toNat key locks
    plan p.torus p.maxDist.toNat key locks = .ok
      { locks := planned.2
        buffers := planned.1.stripes.toArray
        formed := planned.1.formed.length
        dropped := planned.1.abandoned.length } := by
  have harea := area_lt hp
  have hword : UInt64.size = 18446744073709551616 := rfl
  have hmul : mul p.torus.width p.torus.height = .ok p.torus.area :=
    mul_of_lt (show p.torus.area < UInt64.size by omega)
  have hlimit : pairLimit locks.size < UInt64.size := by rw [pairLimit]; omega
  have hroom : (#[] : Array Pair).size + (keyedOrder locks.size key).length * attemptsPerCell
      < UInt64.size := by
    rw [(keyedOrder_perm locks.size key).length_eq, List.length_range]
    simp only [Array.size_empty, attemptsPerCell]
    omega
  intro planned
  rw [plan, hmul, ok_bind, if_neg (not_not.mpr hlocks)]
  change (if p.maxDist.toNat = 0 ∨ locks.size < 2 then _ else _) = _
  by_cases hidle : p.maxDist.toNat = 0 ∨ locks.size < 2
  · rw [if_pos hidle, show planned = _ from if_pos hidle]
    rfl
  have hturns := turns_eq hp (fun h => hidle (.inl h)) key hlimit hlocks
    (fun cell hcell => hlocks ▸ mem_keyedOrder.mp hcell) (Planning.sound_start ..) (Nat.zero_le _)
    hroom
  rw [if_neg hidle, show planned = _ from if_neg hidle, order_eq (by omega), ok_bind,
    quot_of_pos (by decide), ok_bind]
  exact hturns.trans (by simp [draftOf, buffersOf, Plan.stripes, Plan.stripe])

/-! ## Members -/

omit hp in
theorem mark_eq {pairs : List Pair} {member : Array Bool}
    (hcells : ∀ i ∈ membersOf pairs, i < member.size) :
    mark pairs member = .ok
      (pairs.foldl (fun locks pair => Locks.hold locks pair.initiator pair.partner) member) := by
  induction pairs generalizing member with
  | nil => rfl
  | cons pair pairs ih =>
    rw [membersOf_cons, List.forall_mem_append] at hcells
    have hinitiator := hcells.1 _ pair.initiator_mem_cells
    have hpartner := hcells.1 _ pair.partner_mem_cells
    rw [mark, write_of_lt hinitiator, ok_bind, write_of_lt (by simpa using hpartner), ok_bind, ih]
    · rfl
    · simpa using hcells.2

omit hp in
/-- **The members of a plan are marked without a fault**, if its pairs are of cells that are
there. -/
theorem membership_eq {plan : Plan} {n : Nat} (hcells : ∀ i ∈ membersOf plan.formed, i < n) :
    membership plan.stripes.toArray n = .ok (plan.membership n) := by
  have hperm := perm_membersOf plan.perm_pairs
  have hpairs : membership plan.stripes.toArray n = mark plan.pairs (Array.replicate n false) := rfl
  rw [hpairs, mark_eq fun i hi => by simpa using hcells i (hperm.mem_iff.mp hi)]
  congr 1
  refine Array.ext_getElem? fun i => ?_
  have hformed := Plan.getElem?_foldl_hold plan.formed (Array.replicate n false) i
  simp only [← hperm.mem_iff] at hformed
  exact (Plan.getElem?_foldl_hold plan.pairs _ i).trans hformed.symm

end Guarded

end TapeLife
