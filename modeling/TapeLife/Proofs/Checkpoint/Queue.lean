import Mathlib.Data.List.Induction
import TapeLife.Proofs.Checkpoint.Directory

/-!
# Proofs/Checkpoint/Queue — closing the queue writes what waits, in order

    queue ──close──▸ write s₁, write s₂, …, write sₙ

A worker that finishes what waits does what writing in place would have done (`drain_eq`).  Where
the snapshots go into a directory of their own, no write fails and every epoch keeps the bytes that
were sent for it last (`writeInPlace_of_takes`).
-/

namespace TapeLife

namespace WriteQueue

theorem repeat_succ {α : Type} (f : α → α) (n : Nat) (a : α) :
    (n + 1).repeat f a = n.repeat f (f a) := by
  induction n with
  | zero => rfl
  | succ n ih => exact congrArg f ih

/-- **What waits is written in order**, one snapshot after another. -/
theorem drain_eq (q : WriteQueue) (tree : FileTree) :
    q.drain tree = ((writeInPlace tree q.waiting).1,
      { q with waiting := [], reports := q.reports ++ (writeInPlace tree q.waiting).2 }) := by
  obtain ⟨waiting, reports, closed⟩ := q
  induction waiting generalizing tree reports with
  | nil => simp [drain, writeInPlace, Nat.repeat]
  | cons s rest ih =>
    have hfirst : drain ⟨s :: rest, reports, closed⟩ tree
        = drain ⟨rest, reports ++ [(write tree s).2], closed⟩ (write tree s).1 :=
      repeat_succ _ rest.length _
    rw [hfirst, ih, writeInPlace]
    simp only [List.append_assoc, List.singleton_append]

/-- Closing an open queue writes what waits. -/
theorem fst_shutdown (waiting : List Snapshot) (reports : List WriteReport) (tree : FileTree) :
    (shutdown ⟨waiting, reports, false⟩ tree).1 = (writeInPlace tree waiting).1 := by
  simp [shutdown, drain_eq]

end WriteQueue

/-! ## Into a directory of checkpoints -/

namespace Shelf

/-- The shelf after some snapshots were stored, one after another. -/
def storeAll (shelf : Shelf) (snapshots : List Snapshot) : Shelf :=
  snapshots.foldl (fun shelf s => shelf.store s.epoch s.bytes) shelf

theorem storeAll_concat (shelf : Shelf) (snapshots : List Snapshot) (last : Snapshot) :
    shelf.storeAll (snapshots ++ [last]) = (shelf.storeAll snapshots).store last.epoch last.bytes :=
  List.foldl_append

theorem mem_epochs_storeAll {shelf : Shelf} {snapshots : List Snapshot} {epoch : UInt32} :
    epoch ∈ (shelf.storeAll snapshots).map (·.1) ↔
      epoch ∈ shelf.map (·.1) ∨ epoch ∈ snapshots.map (·.epoch) := by
  induction snapshots generalizing shelf with
  | nil => simp [storeAll]
  | cons s rest ih =>
    have hrest : shelf.storeAll (s :: rest) = (shelf.store s.epoch s.bytes).storeAll rest := rfl
    rw [hrest, ih, mem_epochs_store, List.map_cons, List.mem_cons, or_assoc]

theorem nodup_storeAll {shelf : Shelf} (h : (shelf.map (·.1)).Nodup) (snapshots : List Snapshot) :
    ((shelf.storeAll snapshots).map (·.1)).Nodup := by
  induction snapshots generalizing shelf with
  | nil => exact h
  | cons s rest ih => exact ih (nodup_store h s.epoch s.bytes)

/-- **An epoch that was stored is there**, if snapshots of one epoch have the same bytes. -/
theorem lookup_storeAll (contents : UInt32 → List UInt8) {snapshots : List Snapshot}
    (hbytes : ∀ s ∈ snapshots, s.bytes = contents s.epoch) {epoch : UInt32}
    (h : epoch ∈ snapshots.map (·.epoch)) (shelf : Shelf) :
    (shelf.storeAll snapshots).lookup epoch = some (contents epoch) := by
  induction snapshots using List.reverseRecOn with
  | nil => cases h
  | append_singleton snapshots last ih =>
    simp only [List.forall_mem_append, List.forall_mem_singleton] at hbytes
    rw [storeAll_concat]
    by_cases hlast : epoch = last.epoch
    · rw [hlast, lookup_store_self, hbytes.2]
    · rw [lookup_store_of_ne hlast]
      refine ih hbytes.1 ?_
      simpa [hlast] using h

end Shelf

theorem fst_writeInPlace_cons (tree : FileTree) (s : Snapshot) (rest : List Snapshot) :
    (writeInPlace tree (s :: rest)).1 = (writeInPlace (WriteQueue.write tree s).1 rest).1 := rfl

/-- **Snapshots are stored in a directory that takes checkpoints**, all of them. -/
theorem writeInPlace_of_takes {tree made : FileTree} {directory : Path} {base : Location}
    {shelf : Shelf} {snapshots : List Snapshot}
    (h : tree.TakesCheckpoints made directory base shelf) (hne : snapshots ≠ [])
    (hpath : ∀ s ∈ snapshots, s.path = checkpointPath directory s.epoch) :
    (writeInPlace tree snapshots).1 = made.stocked base (shelf.storeAll snapshots) := by
  obtain ⟨first, rest, rfl⟩ := List.exists_cons_of_ne_nil hne
  clear hne
  induction rest generalizing tree shelf first with
  | nil =>
    rw [fst_writeInPlace_cons, WriteQueue.write, hpath first List.mem_cons_self, h.writeDeep_eq]
    rfl
  | cons next rest ih =>
    rw [fst_writeInPlace_cons, WriteQueue.write, hpath first List.mem_cons_self, h.writeDeep_eq]
    exact ih (h.isEmptyDirectory.takes _) next fun s hs => hpath s (List.mem_cons_of_mem _ hs)

end TapeLife
