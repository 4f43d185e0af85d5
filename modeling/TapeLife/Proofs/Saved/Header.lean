import Mathlib.Tactic.SplitIfs
import TapeLife.Proofs.Bytes.LittleEndian
import TapeLife.Saved.Header

/-!
# Proofs/Saved/Header — a header is read exactly where it was written

A reader is known by the bytes it succeeds on.  The equations `…_eq_ok` say for each reader which
value and which rest it gives on which bytes: a word succeeds on its four bytes and whatever follows
them, a sequence succeeds if its parts do one after another.  Put together they say that the bytes
on which a header is read are the bytes of that header, in front of the rest
(`Header.decode_eq_ok`).
-/

namespace TapeLife

/-! ## Flags -/

theorem flagOf_eq_ok {field : String} {byte : UInt8} {flag : Bool} :
    flagOf field byte = .ok flag ↔ byte = flagByte flag := by
  rw [flagOf]
  split_ifs with h0 h1 <;> cases flag <;> simp_all [flagByte]

/-! ## Readers -/

namespace Reader

variable {α β : Type} {bytes rest : List UInt8}

theorem pure_eq_ok {a b : α} :
    (pure a : Reader α) bytes = .ok (b, rest) ↔ a = b ∧ bytes = rest := by
  change Except.ok (a, bytes) = Except.ok (b, rest) ↔ _
  rw [Except.ok.injEq, Prod.mk.injEq]

/-- A sequence of two readers succeeds if the second goes on where the first left off. -/
theorem bind_eq_ok {r : Reader α} {k : α → Reader β} {b : β} :
    (r >>= k) bytes = .ok (b, rest) ↔
      ∃ a mid, r bytes = .ok (a, mid) ∧ k a mid = .ok (b, rest) := by
  simp only [bind, StateT.bind]
  rcases r bytes with cause | ⟨a, mid⟩ <;> simp [Except.bind, and_assoc]

theorem liftM_eq_ok {x : Except FormatError α} {a : α} :
    (liftM x : Reader α) bytes = .ok (a, rest) ↔ x = .ok a ∧ bytes = rest := by
  simp only [liftM, monadLift, MonadLift.monadLift, StateT.lift, bind, Except.bind, pure,
    Except.pure]
  cases x <;> simp

/-- What is refused does not succeed. -/
theorem refuse_eq_ok {c : Prop} [Decidable c] {cause : FormatError} {k : α → Reader β}
    {r : Reader β} {x : β × List UInt8} :
    (if c then (throw cause : Reader α) >>= k else r) bytes = .ok x ↔ ¬ c ∧ r bytes = .ok x := by
  have hthrow : ((throw cause : Reader α) >>= k) bytes = .error cause := rfl
  split_ifs with hc
  · simp [hthrow, hc]
  · simp [hc]

theorem take_eq_ok {n : Nat} {front : List UInt8} :
    take n bytes = .ok (front, rest) ↔ front.length = n ∧ bytes = front ++ rest := by
  rw [take]
  split_ifs with h
  · refine ⟨nofun, ?_⟩
    rintro ⟨rfl, rfl⟩
    rw [List.length_append] at h
    omega
  · simp only [Except.ok.injEq, Prod.mk.injEq]
    constructor
    · rintro ⟨rfl, rfl⟩
      exact ⟨by rw [List.length_take]; omega, (List.take_append_drop n bytes).symm⟩
    · rintro ⟨rfl, rfl⟩
      exact ⟨List.take_left, List.drop_left⟩

/-- **A number is read off its own bytes.** -/
theorem number_eq_ok {n k : Nat} :
    number n bytes = .ok (k, rest) ↔ k < Nat.pow 256 n ∧ bytes = littleEndian n k ++ rest := by
  simp only [number, bind_eq_ok, pure_eq_ok, take_eq_ok]
  constructor
  · rintro ⟨front, mid, ⟨hlen, rfl⟩, hval, rfl⟩
    obtain ⟨hk, rfl⟩ := ofLittleEndian_eq_iff.mp ⟨hlen, hval⟩
    exact ⟨hk, rfl⟩
  · rintro ⟨hk, rfl⟩
    obtain ⟨hlen, hval⟩ := ofLittleEndian_eq_iff.mpr ⟨hk, rfl⟩
    exact ⟨_, _, ⟨hlen, rfl⟩, hval, rfl⟩

theorem word_eq_ok {w : UInt32} :
    word bytes = .ok (w, rest) ↔ bytes = littleEndian 4 w.toNat ++ rest := by
  simp only [word, bind_eq_ok, pure_eq_ok, number_eq_ok]
  constructor
  · rintro ⟨k, mid, ⟨hk, rfl⟩, rfl, rfl⟩
    rw [UInt32.toNat_ofNat_of_lt' hk]
  · rintro rfl
    exact ⟨w.toNat, rest, ⟨w.toNat_lt, rfl⟩, by simp, rfl⟩

theorem wide_eq_ok {w : UInt64} :
    wide bytes = .ok (w, rest) ↔ bytes = littleEndian 8 w.toNat ++ rest := by
  simp only [wide, bind_eq_ok, pure_eq_ok, number_eq_ok]
  constructor
  · rintro ⟨k, mid, ⟨hk, rfl⟩, rfl, rfl⟩
    rw [UInt64.toNat_ofNat_of_lt' hk]
  · rintro rfl
    exact ⟨w.toNat, rest, ⟨w.toNat_lt, rfl⟩, by simp, rfl⟩

/-- Reading a flag and going on: the flag is read off its own byte. -/
theorem flag_bind_eq_ok {field : String} {k : Bool → Reader β} {b : β} :
    (number 1 >>= fun n => (liftM (flagOf field (UInt8.ofNat n)) : Reader Bool) >>= k) bytes
        = .ok (b, rest) ↔
      ∃ flag mid, bytes = flagByte flag :: mid ∧ k flag mid = .ok (b, rest) := by
  simp only [bind_eq_ok, number_eq_ok, liftM_eq_ok, flagOf_eq_ok]
  constructor
  · rintro ⟨n, mid, ⟨-, rfl⟩, flag, _, ⟨hflag, rfl⟩, hk⟩
    exact ⟨flag, mid, by rw [← hflag]; rfl, hk⟩
  · rintro ⟨flag, mid, rfl, hk⟩
    refine ⟨(flagByte flag).toNat, mid, ⟨(flagByte flag).toNat_lt, ?_⟩, flag, mid, ⟨?_, rfl⟩, hk⟩
    · simp [littleEndian]
    · simp

end Reader

namespace Header

variable {bytes rest : List UInt8}

/-! ## Headers -/

theorem readParams_eq_ok {p : Params} :
    readParams bytes = .ok (p, rest) ↔ bytes = encodeParams p ++ rest := by
  rw [readParams, Reader.bind_eq_ok]
  simp only [Reader.flag_bind_eq_ok]
  simp only [Reader.bind_eq_ok, Reader.word_eq_ok, Reader.wide_eq_ok, Reader.pure_eq_ok]
  constructor
  · rintro ⟨seed, _, rfl, flag, _, rfl, steps, _, rfl, dist, _, rfl, rate, _, rfl, width, _, rfl,
      height, _, rfl, rfl, rfl⟩
    simp [encodeParams]
  · rintro rfl
    refine ⟨p.seed, _, ?_, p.fixedShuffle, _, rfl, p.maxSteps, _, rfl, p.maxDist, _, rfl,
      p.rate.bits, _, rfl, p.width, _, rfl, p.height, _, rfl, rfl, rfl⟩
    simp [encodeParams]

/-- **A header is read exactly where it was written**, and what follows it is left alone. -/
theorem decode_eq_ok {h : Header} :
    decode bytes = .ok (h, rest) ↔ bytes = h.encode ++ rest := by
  change read bytes = _ ↔ _
  simp only [read, Reader.bind_eq_ok, Reader.take_eq_ok, Reader.refuse_eq_ok, Reader.number_eq_ok,
    Reader.word_eq_ok, Reader.pure_eq_ok, readParams_eq_ok, ne_eq, Decidable.not_not]
  constructor
  · rintro ⟨_, _, ⟨-, rfl⟩, rfl, _, _, ⟨-, rfl⟩, rfl, width, _, rfl, height, _, rfl, epoch, _, rfl,
      params, _, rfl, rfl, rfl⟩
    simp [encode]
  · rintro rfl
    refine ⟨magic, _, ⟨rfl, ?_⟩, rfl, version, _, ⟨by decide, rfl⟩, rfl, h.width, _, rfl,
      h.height, _, rfl, h.epoch, _, rfl, h.params, _, rfl, rfl, rfl⟩
    simp [encode]

end Header

end TapeLife
