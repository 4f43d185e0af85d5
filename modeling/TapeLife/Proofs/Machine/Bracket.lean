import Mathlib.Logic.Basic
import Mathlib.Tactic.SplitIfs
import TapeLife.Machine.Rules

/-!
# Proofs/Machine/Bracket — scanning finds the partner bracket

    [ a [ b ] c ] d ]        Closes 0 "a[b]c"   Closes 1 "a[b]c]d"   Closes 2 "a[b]c]d]"

A scan counts how many groups are open and stops where the last of them is closed (`closeAt`).
Without a count, bytes close `depth` groups if they are complete groups with `depth` closing
brackets in between (`Closes`), and one more byte in front changes that as it changes the count.

    memory      … [ b ] c ]         the scan to the left sees the bytes in a mirror,
    mirrored        [ c [ b ] …     and complete groups are complete groups there

So each scan stops at the partner of its bracket (`closingPartner_eq_some_iff`,
`openingPartner_eq_some_iff`), and the two scans undo each other (`scans_agree`).
-/

namespace TapeLife

open Instruction (openByte closeByte)

variable {n depth : Nat} {memory : Vector UInt8 n} {bytes rest : List UInt8} {b : UInt8}

/-! ## Complete groups -/

theorem openByte_ne_closeByte : openByte ≠ closeByte := by decide

theorem Balanced.append (h : Balanced bytes) (h' : Balanced rest) : Balanced (bytes ++ rest) := by
  induction h with
  | nil => exact h'
  | other hopen hclose _ ih => exact .other hopen hclose ih
  | group hinner _ _ ih =>
    rw [List.append_assoc, List.cons_append]
    exact .group hinner ih

theorem balanced_cons_iff_of_other (hopen : b ≠ openByte) (hclose : b ≠ closeByte) :
    Balanced (b :: bytes) ↔ Balanced bytes := by
  refine ⟨fun h => ?_, .other hopen hclose⟩
  cases h with
  | other _ _ h => exact h
  | group => exact absurd rfl hopen

/-- An opening bracket in front needs a closing one, with complete groups on both sides of it. -/
theorem balanced_open_cons_iff :
    Balanced (openByte :: bytes) ↔
      ∃ inner rest, bytes = inner ++ closeByte :: rest ∧ Balanced inner ∧ Balanced rest := by
  constructor
  · intro h
    generalize hall : openByte :: bytes = all at h
    cases h with
    | nil => cases hall
    | other hopen => exact absurd (List.cons.inj hall).1.symm hopen
    | group hinner hrest => exact ⟨_, _, (List.cons.inj hall).2, hinner, hrest⟩
  · rintro ⟨inner, rest, rfl, hinner, hrest⟩
    exact .group hinner hrest

theorem not_balanced_close_cons : ¬ Balanced (closeByte :: bytes) := by
  intro h
  generalize hall : closeByte :: bytes = all at h
  cases h with
  | nil => cases hall
  | other _ hclose => exact hclose (List.cons.inj hall).1.symm
  | group => exact absurd (List.cons.inj hall).1 (by decide)

/-! ## Groups that were opened before -/

/-- Complete groups with `depth` closing brackets in between: the bytes close as many groups that
were opened before them. -/
def Closes : Nat → List UInt8 → Prop
  | 0, bytes => Balanced bytes
  | depth + 1, bytes =>
    ∃ inner rest, bytes = inner ++ closeByte :: rest ∧ Balanced inner ∧ Closes depth rest

theorem closes_nil_iff : Closes depth [] ↔ depth = 0 := by
  cases depth with
  | zero => exact iff_of_true .nil rfl
  | succ depth =>
    refine iff_of_false ?_ (Nat.succ_ne_zero depth)
    rintro ⟨inner, rest, h, -⟩
    simp at h

theorem closes_cons_iff_of_other (hopen : b ≠ openByte) (hclose : b ≠ closeByte) :
    Closes depth (b :: bytes) ↔ Closes depth bytes := by
  cases depth with
  | zero => exact balanced_cons_iff_of_other hopen hclose
  | succ depth =>
    constructor
    · rintro ⟨_ | ⟨_, inner⟩, rest, h, hinner, hrest⟩
      · exact absurd (List.cons.inj h).1 hclose
      · obtain ⟨rfl, rfl⟩ := List.cons.inj h
        exact ⟨inner, rest, rfl, (balanced_cons_iff_of_other hopen hclose).mp hinner, hrest⟩
    · rintro ⟨inner, rest, rfl, hinner, hrest⟩
      exact ⟨b :: inner, rest, rfl, .other hopen hclose hinner, hrest⟩

/-- **An opening bracket is one more group to close.** -/
theorem closes_open_cons_iff : Closes depth (openByte :: bytes) ↔ Closes (depth + 1) bytes := by
  cases depth with
  | zero => exact balanced_open_cons_iff
  | succ depth =>
    constructor
    · rintro ⟨_ | ⟨_, inner⟩, rest, h, hinner, hrest⟩
      · exact absurd (List.cons.inj h).1 (by decide)
      · obtain ⟨rfl, rfl⟩ := List.cons.inj h
        -- The bracket in front is closed within `inner`, and what is left of it comes after.
        obtain ⟨first, second, rfl, hfirst, hsecond⟩ := balanced_open_cons_iff.mp hinner
        exact ⟨first, second ++ closeByte :: rest, by simp, hfirst, second, rest, rfl, hsecond,
          hrest⟩
    · rintro ⟨first, _, rfl, hfirst, second, rest, rfl, hsecond, hrest⟩
      exact ⟨openByte :: first ++ closeByte :: second, rest, by simp, .group hfirst hsecond, hrest⟩

/-- **A closing bracket is one group less to close.** -/
theorem closes_close_cons_iff : Closes (depth + 1) (closeByte :: bytes) ↔ Closes depth bytes := by
  constructor
  · rintro ⟨_ | ⟨_, inner⟩, rest, h, hinner, hrest⟩
    · obtain rfl := (List.cons.inj h).2
      exact hrest
    · obtain ⟨rfl, -⟩ := List.cons.inj h
      exact absurd hinner not_balanced_close_cons
  · exact fun h => ⟨[], bytes, rfl, .nil, h⟩

/-! ## Scanning -/

/-- Where the last of `depth + 1` groups is closed that were opened before the bytes. -/
def closeAt : List UInt8 → Nat → Option Nat
  | [], _ => none
  | b :: bytes, depth =>
    if b = openByte then (closeAt bytes (depth + 1)).map (· + 1)
    else if b = closeByte then
      match depth with
      | 0 => some 0
      | depth + 1 => (closeAt bytes depth).map (· + 1)
    else (closeAt bytes depth).map (· + 1)

theorem closeAt_cons :
    closeAt (b :: bytes) depth =
      if b = openByte then (closeAt bytes (depth + 1)).map (· + 1)
      else if b = closeByte then
        match depth with
        | 0 => some 0
        | depth + 1 => (closeAt bytes depth).map (· + 1)
      else (closeAt bytes depth).map (· + 1) := rfl

/-- **Counting stops at the closing bracket that has the other groups closed in front of it.** -/
theorem closeAt_eq_some_iff {k : Nat} :
    closeAt bytes depth = some k ↔ bytes[k]? = some closeByte ∧ Closes depth (bytes.take k) := by
  induction bytes generalizing depth k with
  | nil => simp [closeAt]
  | cons b bytes ih =>
    rw [closeAt_cons]
    split_ifs with hopen hclose
    · subst hopen
      cases k with
      | zero => simp [openByte_ne_closeByte]
      | succ k => simp [ih, closes_open_cons_iff]
    · subst hclose
      cases depth <;> cases k
      · simp [Closes, Balanced.nil]
      · simp [Closes, not_balanced_close_cons]
      · simp [closes_nil_iff]
      · simp [ih, closes_close_cons_iff]
    · cases k with
      | zero => simp [hclose]
      | succ k => simp [ih, closes_cons_iff_of_other hopen hclose]

/-- The scan to the right counts along the bytes it scans. -/
theorem map_val_closingFrom {left : Nat} (h : left ≤ n) :
    (closingFrom memory left h depth).map Fin.val =
      (closeAt (memory.toList.drop (n - left)) depth).map (n - left + ·) := by
  induction left generalizing depth with
  | zero =>
    have hend : memory.toList.drop (n - 0) = [] := by simp
    rw [hend]
    rfl
  | succ left ih =>
    let here : Fin n := ⟨n - (left + 1), by omega⟩
    have hnext : n - (left + 1) + 1 = n - left := by omega
    have hscan : closingFrom memory (left + 1) h depth =
        if memory[here] = openByte then closingFrom memory left (by omega) (depth + 1)
        else if memory[here] = closeByte then
          match depth with
          | 0 => some here
          | depth + 1 => closingFrom memory left (by omega) depth
        else closingFrom memory left (by omega) depth := rfl
    have hbytes : memory.toList.drop (n - (left + 1)) =
        memory[here] :: memory.toList.drop (n - left) := by
      rw [List.drop_eq_getElem_cons (by simp; omega)]
      simp [here, hnext]
    have hstep : (n - (left + 1) + ·) ∘ (· + 1) = (n - left + ·) := by
      funext k
      simp
      omega
    rw [hscan, hbytes, closeAt_cons]
    split_ifs
    · simp [ih, hstep]
    · cases depth <;> simp [ih, hstep, here]
    · simp [ih, hstep]

/-! ## The mirror -/

/-- A byte in the mirror: the brackets change places. -/
def mirror (b : UInt8) : UInt8 :=
  if b = openByte then closeByte else if b = closeByte then openByte else b

@[simp] theorem mirror_openByte : mirror openByte = closeByte := by decide

@[simp] theorem mirror_closeByte : mirror closeByte = openByte := by decide

theorem mirror_of_other (hopen : b ≠ openByte) (hclose : b ≠ closeByte) : mirror b = b := by
  simp [mirror, hopen, hclose]

@[simp] theorem mirror_mirror (b : UInt8) : mirror (mirror b) = b := by
  rcases eq_or_ne b openByte with rfl | hopen
  · simp
  rcases eq_or_ne b closeByte with rfl | hclose
  · simp
  · simp [mirror_of_other, hopen, hclose]

theorem mirror_eq_openByte_iff : mirror b = openByte ↔ b = closeByte := by
  constructor
  · intro h
    rw [← mirror_mirror b, h, mirror_openByte]
  · rintro rfl
    exact mirror_closeByte

theorem mirror_eq_closeByte_iff : mirror b = closeByte ↔ b = openByte := by
  constructor
  · intro h
    rw [← mirror_mirror b, h, mirror_closeByte]
  · rintro rfl
    exact mirror_openByte

/-- Bytes in the mirror. -/
def mirrored (bytes : List UInt8) : List UInt8 := (bytes.map mirror).reverse

@[simp] theorem mirrored_mirrored (bytes : List UInt8) : mirrored (mirrored bytes) = bytes := by
  simp [mirrored, Function.comp_def]

theorem getElem?_mirrored_eq_closeByte_iff {k : Nat} :
    (mirrored bytes)[k]? = some closeByte ↔
      k < bytes.length ∧ bytes[bytes.length - 1 - k]? = some openByte := by
  rcases Nat.lt_or_ge k bytes.length with hk | hk
  · have hplace : bytes.length - 1 - k < bytes.length := by omega
    simp [mirrored, hk, mirror_eq_closeByte_iff, List.getElem?_eq_getElem hplace]
  · simp [mirrored, Nat.not_lt.mpr hk]

theorem take_mirrored {k : Nat} :
    (mirrored bytes).take k = mirrored (bytes.drop (bytes.length - k)) := by
  simp [mirrored, List.take_reverse]

theorem Balanced.mirrored (h : Balanced bytes) : Balanced (mirrored bytes) := by
  induction h with
  | nil => exact .nil
  | other hopen hclose _ ih =>
    simpa [TapeLife.mirrored, mirror_of_other hopen hclose] using
      ih.append (.other hopen hclose .nil)
  | group _ _ hinner hrest =>
    simpa [TapeLife.mirrored] using hrest.append (.group hinner .nil)

theorem balanced_mirrored_iff : Balanced (mirrored bytes) ↔ Balanced bytes :=
  ⟨fun h => mirrored_mirrored bytes ▸ h.mirrored, .mirrored⟩

/-- The scan to the left counts along the mirrored bytes. -/
theorem map_val_openingBefore {left : Nat} (h : left ≤ n) :
    (openingBefore memory left h depth).map Fin.val =
      (closeAt (mirrored (memory.toList.take left)) depth).map (left - 1 - ·) := by
  induction left generalizing depth with
  | zero => rfl
  | succ left ih =>
    let here : Fin n := ⟨left, h⟩
    have hscan : openingBefore memory (left + 1) h depth =
        if memory[here] = closeByte then openingBefore memory left (by omega) (depth + 1)
        else if memory[here] = openByte then
          match depth with
          | 0 => some here
          | depth + 1 => openingBefore memory left (by omega) depth
        else openingBefore memory left (by omega) depth := rfl
    have hbytes : mirrored (memory.toList.take (left + 1)) =
        mirror memory[here] :: mirrored (memory.toList.take left) := by
      rw [← List.take_append_getElem (by simp; omega)]
      simp [mirrored, here]
    have hstep : (left - ·) ∘ (· + 1) = (left - 1 - ·) := by
      funext k
      simp
      omega
    rw [hscan, hbytes, closeAt_cons, Nat.add_sub_cancel]
    simp only [mirror_eq_openByte_iff, mirror_eq_closeByte_iff]
    split_ifs
    · simp [ih, hstep]
    · cases depth <;> simp [ih, hstep, here]
    · simp [ih, hstep]

/-! ## Partners -/

variable {o c : Fin n}

theorem map_val_eq_some_iff {found : Option (Fin n)} :
    found.map Fin.val = some c.val ↔ found = some c := by
  cases found <;> simp [Fin.ext_iff]

/-- **The scan to the right stops at the closing bracket with complete groups in front of it.**  It
does not look at the byte it starts from. -/
theorem closingPartner_eq_some :
    closingPartner memory o = some c ↔
      o < c ∧ memory.get c = closeByte ∧ Balanced (between memory.toList o c) := by
  have hstart : n - (n - (o + 1)) = o + 1 := by omega
  rw [closingPartner, ← map_val_eq_some_iff, map_val_closingFrom, hstart, Option.map_eq_some_iff]
  simp only [closeAt_eq_some_iff, List.getElem?_drop, List.take_drop]
  constructor
  · rintro ⟨k, ⟨hbyte, hinner⟩, hk⟩
    rw [hk] at hbyte hinner
    have hcloses : memory[c] = closeByte := by simpa using hbyte
    exact ⟨by omega, hcloses, hinner⟩
  · rintro ⟨hlt, hbyte, hinner⟩
    change memory[c] = closeByte at hbyte
    have hk : o + 1 + (c - (o + 1)) = (c : Nat) := by omega
    refine ⟨c - (o + 1), ?_, hk⟩
    rw [hk]
    exact ⟨by simpa using hbyte, hinner⟩

/-- **The scan to the right from an opening bracket finds its partner, if it has one.** -/
theorem closingPartner_eq_some_iff (ho : memory.get o = openByte) :
    closingPartner memory o = some c ↔ Partners memory o c :=
  closingPartner_eq_some.trans
    ⟨fun h => ⟨h.1, ho, h.2.1, h.2.2⟩, fun h => ⟨h.lt, h.closes, h.balanced⟩⟩

/-- The partner of the first bracket of `[+[]]]` is the last but one. -/
example : closingPartner #v[0x5b, 0x2b, 0x5b, 0x5d, 0x5d, 0x5d] 0 = some 4 := by decide

/-- **The scan to the left stops at the opening bracket with complete groups behind it.** -/
theorem openingPartner_eq_some :
    openingPartner memory c = some o ↔
      o < c ∧ memory.get o = openByte ∧ Balanced (between memory.toList o c) := by
  have hlen : (memory.toList.take c).length = c := by simp
  rw [openingPartner, ← map_val_eq_some_iff, map_val_openingBefore, Option.map_eq_some_iff]
  simp only [closeAt_eq_some_iff, getElem?_mirrored_eq_closeByte_iff, take_mirrored, Closes,
    balanced_mirrored_iff, hlen]
  constructor
  · rintro ⟨k, ⟨⟨hk, hbyte⟩, hinner⟩, ho⟩
    have hstart : (c : Nat) - k = o + 1 := by omega
    rw [ho] at hbyte
    rw [hstart] at hinner
    obtain ⟨hlt, hopens⟩ : (o : Nat) < c ∧ memory[o] = openByte := by
      simpa [List.getElem?_take] using hbyte
    exact ⟨hlt, hopens, hinner⟩
  · rintro ⟨hlt, hbyte, hinner⟩
    change memory[o] = openByte at hbyte
    have hstart : (c : Nat) - (c - 1 - o) = o + 1 := by omega
    have ho : (c : Nat) - 1 - (c - 1 - o) = o := by omega
    refine ⟨c - 1 - o, ⟨⟨by omega, ?_⟩, ?_⟩, ho⟩
    · rw [ho]
      simpa [List.getElem?_take] using ⟨hlt, hbyte⟩
    · rw [hstart]
      exact hinner

/-- **The scan to the left from a closing bracket finds its partner, if it has one.** -/
theorem openingPartner_eq_some_iff (hc : memory.get c = closeByte) :
    openingPartner memory c = some o ↔ Partners memory o c :=
  openingPartner_eq_some.trans
    ⟨fun h => ⟨h.1, h.2.1, hc, h.2.2⟩, fun h => ⟨h.lt, h.opens, h.balanced⟩⟩

/-! ## The two scans together -/

/-- A scan that finds nothing has nothing to find. -/
theorem closingPartner_eq_none :
    closingPartner memory o = none ↔
      ∀ c, ¬ (o < c ∧ memory.get c = closeByte ∧ Balanced (between memory.toList o c)) := by
  simp only [← closingPartner_eq_some, Option.eq_none_iff_forall_ne_some, ne_eq]

theorem openingPartner_eq_none :
    openingPartner memory c = none ↔
      ∀ o, ¬ (o < c ∧ memory.get o = openByte ∧ Balanced (between memory.toList o c)) := by
  simp only [← openingPartner_eq_some, Option.eq_none_iff_forall_ne_some, ne_eq]

/-- **The two scans undo each other.**  The scan to the right from an opening bracket finds a
closing bracket exactly if the scan to the left from there finds the opening one, and both do
exactly if the bytes between the two are complete groups.  A scan, from any place, finds nothing
exactly if no bracket of the other kind has complete groups on the way to it; and never do two of
them. -/
theorem scans_agree (memory : Vector UInt8 n) :
    (∀ o c, o < c → memory.get o = openByte → memory.get c = closeByte →
        (closingPartner memory o = some c ↔ openingPartner memory c = some o) ∧
          (closingPartner memory o = some c ↔ Balanced (between memory.toList o c)) ∧
          (openingPartner memory c = some o ↔ Balanced (between memory.toList o c))) ∧
      (∀ o,
        let closes := fun c =>
          o < c ∧ memory.get c = closeByte ∧ Balanced (between memory.toList o c)
        (closingPartner memory o = none ↔ ∀ c, ¬ closes c) ∧
          ∀ c c', closes c → closes c' → c = c') ∧
      ∀ c,
        let opens := fun o =>
          o < c ∧ memory.get o = openByte ∧ Balanced (between memory.toList o c)
        (openingPartner memory c = none ↔ ∀ o, ¬ opens o) ∧
          ∀ o o', opens o → opens o' → o = o' := by
  refine ⟨fun o c hlt ho hc => ?_, fun o => ⟨closingPartner_eq_none, fun c c' h h' => ?_⟩,
    fun c => ⟨openingPartner_eq_none, fun o o' h h' => ?_⟩⟩
  · have hclosing : closingPartner memory o = some c ↔ Balanced (between memory.toList o c) := by
      rw [closingPartner_eq_some, and_iff_right hlt, and_iff_right hc]
    have hopening : openingPartner memory c = some o ↔ Balanced (between memory.toList o c) := by
      rw [openingPartner_eq_some, and_iff_right hlt, and_iff_right ho]
    exact ⟨hclosing.trans hopening.symm, hclosing, hopening⟩
  · have hsame := (closingPartner_eq_some.mpr h).symm.trans (closingPartner_eq_some.mpr h')
    exact Option.some.inj hsame
  · have hsame := (openingPartner_eq_some.mpr h).symm.trans (openingPartner_eq_some.mpr h')
    exact Option.some.inj hsame

end TapeLife
