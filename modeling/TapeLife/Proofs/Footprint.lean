import Mathlib.Data.List.Nodup

/-!
# Proofs/Footprint — updates that keep to their own places

An update of an array has a *footprint* if it reads and writes only there (`Keeps`).  Updates with
disjoint footprints do not see each other, so after all of them every place holds what the one
update that covers it makes of the array as it was at first (`Keeps.getElem?_foldl`), whatever the
order.
-/

namespace TapeLife

variable {α β : Type}

/-- Updates `f` keep to the places `foot`: such a place afterwards holds `value`, which depends on
nothing but those places, and every other place holds what it held. -/
structure Keeps (f : Array α → β → Array α) (foot : β → List Nat)
    (value : Array α → β → Nat → Option α) : Prop where
  getElem? : ∀ cells b i, (f cells b)[i]? = if i ∈ foot b then value cells b i else cells[i]?
  value_congr : ∀ {cells cells' : Array α} {b i}, (∀ j ∈ foot b, cells[j]? = cells'[j]?) →
    i ∈ foot b → value cells b i = value cells' b i

namespace Keeps

variable {f : Array α → β → Array α} {foot : β → List Nat} {value : Array α → β → Nat → Option α}
  (hf : Keeps f foot value)
include hf

/-- Places that no update covers stay. -/
theorem getElem?_foldl_of_notMem {bs : List β} {i : Nat} (h : ∀ b ∈ bs, i ∉ foot b)
    (cells : Array α) : (bs.foldl f cells)[i]? = cells[i]? := by
  induction bs generalizing cells with
  | nil => rfl
  | cons b bs ih =>
    obtain ⟨hb, hbs⟩ := List.forall_mem_cons.mp h
    rw [List.foldl_cons, ih hbs, hf.getElem?, if_neg hb]

/-- **A place that one of several disjoint updates covers holds what that update alone makes of
it.** -/
theorem getElem?_foldl {bs : List β} (hd : bs.Pairwise fun b c => (foot b).Disjoint (foot c))
    {b : β} (hb : b ∈ bs) {i : Nat} (hi : i ∈ foot b) (cells : Array α) :
    (bs.foldl f cells)[i]? = value cells b i := by
  induction bs generalizing cells with
  | nil => simp at hb
  | cons c bs ih =>
    obtain ⟨hc, hbs⟩ := List.pairwise_cons.mp hd
    rw [List.foldl_cons]
    rcases List.mem_cons.mp hb with rfl | hb
    · have hother : ∀ d ∈ bs, i ∉ foot d := fun d hd hid => hc d hd hi hid
      rw [hf.getElem?_foldl_of_notMem hother, hf.getElem?, if_pos hi]
    · -- The first update leaves everything alone that `b` reads.
      rw [ih hbs hb]
      refine hf.value_congr (fun j hj => ?_) hi
      rw [hf.getElem?, if_neg fun hjc => hc b hb hjc hj]

end Keeps

end TapeLife
