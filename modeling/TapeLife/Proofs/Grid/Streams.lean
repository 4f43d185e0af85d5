import TapeLife.Proofs.Grid.Draws
import TapeLife.Proofs.Grid.History
import TapeLife.Proofs.Program
import TapeLife.Proofs.Random.Mix

/-!
# Proofs/Grid/Streams — no two cells share a stream

    born:   ofPlace seed x y  for every place        all different
    later:  the same streams, all after equally many draws

The cells of a new soup have the streams of their places, which are different for different places
and for different seeds (`nodup_streams_grow`, `streamAt?_grow_ne`).  Drawing equally often from all
of them keeps them different, and that is what epochs do in which no run draws (`streams_compute`).
So they stay different through every history in which programs neither draw nor are noise
(`streams_stay_different`).
-/

namespace TapeLife

namespace Grid

variable {g : Grid} {params : Params} {fill : Fill} {i : Nat}

/-- The random streams of all cells, row by row. -/
def streams (g : Grid) : List Stream := g.cells.toList.map (·.stream)

theorem getElem?_streams (g : Grid) (i : Nat) : g.streams[i]? = g.streamAt? i := by
  rw [streams, List.getElem?_map, Array.getElem?_toList, streamAt?]

/-! ## New soups -/

/-- The stream of the place of a cell. -/
def bornStream (params : Params) (i : Nat) : Stream :=
  .ofPlace params.seed (UInt32.ofNat (params.torus.column i)) (UInt32.ofNat (params.torus.row i))

theorem streamAt?_grow (hi : i < params.cellCount) :
    (grow params fill).streamAt? i = some ((bornStream params i).advance fill.program.draws) := by
  rw [streamAt?, grow, Array.getElem?_ofFn, dif_pos hi, Option.map_some, newCell_eq,
    Program.writeTo_eq]
  rfl

/-- Small numbers stay apart as words. -/
theorem eq_of_ofNat_eq {m n size : Nat} (hsize : size < 2 ^ 32) (hm : m < size) (hn : n < size)
    (h : UInt32.ofNat m = UInt32.ofNat n) : m = n := by
  have hnat := congrArg UInt32.toNat h
  rwa [UInt32.toNat_ofNat_of_lt' (hm.trans hsize), UInt32.toNat_ofNat_of_lt' (hn.trans hsize)]
    at hnat

/-- **Different cells are at different places**, so their streams differ. -/
theorem bornStream_inj {j : Nat} (hi : i < params.cellCount) (hj : j < params.cellCount) :
    bornStream params i = bornStream params j ↔ i = j := by
  refine ⟨fun h => ?_, congrArg _⟩
  have hwidth := Torus.width_pos_of_lt_area hi
  obtain ⟨hcolumn, hrow⟩ := Stream.ofPlace_inj.mp h
  have hsameColumn : params.torus.column i = params.torus.column j :=
    eq_of_ofNat_eq params.width.toNat_lt (Torus.column_lt hwidth i) (Torus.column_lt hwidth j)
      hcolumn
  have hsameRow : params.torus.row i = params.torus.row j :=
    eq_of_ofNat_eq params.height.toNat_lt (Torus.row_lt hi) (Torus.row_lt hj) hrow
  rw [← params.torus.index_column_row i, hsameColumn, hsameRow, Torus.index_column_row]

/-- **No two cells of a new soup have the same stream.** -/
theorem nodup_streams_grow (params : Params) (fill : Fill) : (grow params fill).streams.Nodup := by
  have hstreams : (grow params fill).streams = (List.range params.cellCount).map fun i =>
      (bornStream params i).advance fill.program.draws := by
    refine List.ext_getElem? fun i => ?_
    rw [getElem?_streams, List.getElem?_map]
    by_cases hi : i < params.cellCount
    · rw [streamAt?_grow hi, List.getElem?_range hi, Option.map_some]
    · have hsize : (grow params fill).cells.size ≤ i := by
        rw [grow, Array.size_ofFn]
        exact Nat.not_lt.mp hi
      rw [streamAt?, Array.getElem?_eq_none hsize, List.getElem?_eq_none (by simpa using hi)]
      rfl
  rw [hstreams]
  refine List.Nodup.map_on (fun i hi j hj h => ?_) List.nodup_range
  exact (bornStream_inj (List.mem_range.mp hi) (List.mem_range.mp hj)).mp
    (Stream.advance_injective _ h)

/-- **No cell has the same stream for two seeds.** -/
theorem streamAt?_grow_ne {seed seed' : UInt64} (hseed : seed ≠ seed') (hi : i < params.cellCount) :
    (grow { params with seed } fill).streamAt? i
      ≠ (grow { params with seed := seed' } fill).streamAt? i := by
  have hborn := @streamAt?_grow { params with seed } fill i hi
  have hborn' := @streamAt?_grow { params with seed := seed' } fill i hi
  rw [hborn, hborn', ne_eq, Option.some.injEq, (Stream.advance_injective _).eq_iff]
  exact fun h => hseed (Stream.ofPlace_seed_inj.mp h)

/-! ## Changes -/

/-- **Epochs in which no run draws move all streams on alike.** -/
theorem streams_compute (hg : g.WellFormed) {entropy : Nat → UInt64} {k : Nat}
    (hquiet : ∀ i < g.cells.size, drawsOf (g.runsOver entropy k i) = 0) :
    (g.compute entropy k).1.streams = g.streams.map (Stream.advance (64 * k)) := by
  refine List.ext_getElem? fun i => ?_
  rw [List.getElem?_map, getElem?_streams, getElem?_streams, (streamAt?_compute hg entropy k i).1]
  by_cases hi : i < g.cells.size
  · rw [hquiet i hi, Nat.add_zero]
  · rw [streamAt?, Array.getElem?_eq_none (Nat.not_lt.mp hi)]
    rfl

/-- A program that is not noise leaves every stream as it is. -/
theorem streams_modify {program : Program} (hprogram : program ≠ .noise) (i : Nat) :
    streams { g with cells := g.cells.modify i fun cell => (program.writeTo cell).unlock }
      = g.streams := by
  have hdraws : program.draws = 0 := by
    cases program with
    | noise => exact absurd rfl hprogram
    | empty | replicator | literal => rfl
  refine List.ext_getElem? fun j => ?_
  rw [getElem?_streams, getElem?_streams, streamAt?, streamAt?, Array.getElem?_modify]
  split
  · rw [Option.map_map]
    refine Option.map_congr fun cell _ => ?_
    rw [Function.comp_apply, Cell.stream_unlock, Program.writeTo_eq, hdraws]
    rfl
  · rfl

/-- Nothing in a change draws for one cell and not for the others: no program of noise is written,
and no program executes the instruction that draws.  What is loaded has different streams. -/
def Quiet (g : Grid) : Change → Prop
  | .reset _ _ => True
  | .set _ _ program => program ≠ .noise
  | .setBuiltIn _ _ id => Program.builtIn? id ≠ some .noise
  | .compute entropy speed => ∀ i < g.cells.size, drawsOf (g.runsOver entropy speed i) = 0
  | .load bytes => ∀ loaded, ofSaved bytes = .ok loaded → loaded.streams.Nodup

/-- All changes of a history are quiet, if they succeed. -/
def QuietHistory (g : Grid) : List Change → Prop
  | [] => True
  | change :: changes =>
    ((g.apply change).2 = none → g.Quiet change) ∧ QuietHistory (g.apply change).1 changes

/-- **A quiet change keeps streams different.** -/
theorem nodup_streams_apply (hg : g.WellFormed) (h : g.streams.Nodup) {change : Change}
    (hquiet : (g.apply change).2 = none → g.Quiet change) :
    (g.apply change).1.streams.Nodup := by
  obtain ⟨cause, hc⟩ | ⟨seed, fill, rfl, hc⟩ | ⟨x, y, i, program, -, hwrites, hc⟩ |
    ⟨entropy, speed, rfl, hc⟩ | ⟨bytes, loaded, rfl, hwell, rfl, hc⟩ := g.apply_cases change
  · rwa [hc]
  · rw [hc]
    exact nodup_streams_grow _ fill
  · have hprogram : program ≠ .noise := by
      have hquiet := hquiet (by rw [hc])
      obtain rfl | ⟨id, rfl, hid⟩ := hwrites
      · exact hquiet
      · exact fun hnoise => hquiet (hnoise ▸ hid)
    rw [hc, streams_modify hprogram]
    exact h
  · have hdraws : g.Quiet (.compute entropy speed) := hquiet (by rw [hc])
    rw [hc, streams_compute hg hdraws]
    exact h.map (Stream.advance_injective _)
  · have hloaded : g.Quiet (.load loaded.save) := hquiet (by rw [hc])
    rw [hc]
    exact hloaded loaded (ofSaved_save hwell)

/-- **A quiet history keeps streams different.** -/
theorem nodup_streams_after (hg : g.WellFormed) (h : g.streams.Nodup) {changes : List Change}
    (hquiet : g.QuietHistory changes) : (g.after changes).streams.Nodup := by
  induction changes generalizing g with
  | nil => exact h
  | cons change changes ih =>
    exact ih (hg.apply change) (nodup_streams_apply hg h hquiet.1) hquiet.2

/-- **No two cells share a stream.**  Scrambling is a bijection of the words, so after a soup has
started over, with any seed and any first tapes, all its cells have different streams, and no cell
has the stream it would have with another seed.  Streams that differ stay different when equally
many words are drawn from them; so if the cells of a soup have different streams, they have
different streams after any history, however many epochs pass in it, in which no program draws and
no noise is written. -/
theorem streams_stay_different :
    Function.Bijective mix64 ∧
    (∀ (g : Grid) (seed : UInt64) (fill : Fill), (g.reset seed fill).streams.Nodup ∧
      ∀ seed' : UInt64, seed ≠ seed' → ∀ i < g.params.cellCount,
        (g.reset seed fill).streamAt? i ≠ (g.reset seed' fill).streamAt? i) ∧
    (∀ n : Nat, ∀ s t : Stream, s ≠ t → s.advance n ≠ t.advance n) ∧
    ∀ (g : Grid) (changes : List Change), g.WellFormed → g.streams.Nodup →
      g.QuietHistory changes → (g.after changes).streams.Nodup := by
  refine ⟨mix64_bijective, fun g seed fill => ⟨nodup_streams_grow _ fill, ?_⟩, ?_, ?_⟩
  · exact fun seed' hseed i hi => streamAt?_grow_ne hseed hi
  · exact fun n s t hne => (Stream.advance_injective n).ne hne
  · exact fun g changes hg h hquiet => nodup_streams_after hg h hquiet

/-- Four cells with blank tapes. -/
def meadow : Grid :=
  grow { seed := 7, fixedShuffle := true, maxSteps := 12, maxDist := 1, rate := ⟨0⟩
         width := 2, height := 2 } .zero

/-- A history in which programs run and copy themselves, but do not draw; the noise is not written,
as it is meant for a place that is not there. -/
def quietYear : List Change :=
  [.reset 9 .random, .reset 9 .zero, .set 0 1 .replicator, .compute (fun _ => 0) 1,
    .setBuiltIn 1 1 0, .setBuiltIn 2 1 2, .compute (fun _ => 0) 1]

theorem streams_stay_different_meadow :
    (meadow.WellFormed ∧ meadow.streams.Nodup ∧ meadow.QuietHistory quietYear) ∧
      (meadow.after quietYear).streams.Nodup ∧
      (meadow.reset 8 .random).streamAt? 3 ≠ (meadow.reset 9 .random).streamAt? 3 := by
  obtain ⟨-, hreset, -, hafter⟩ := streams_stay_different
  have hwell : meadow.WellFormed := ⟨(Params.fault?_eq_none_iff _).mp (by decide), rfl⟩
  have hborn : meadow.streams.Nodup := (hreset meadow 7 .zero).1
  have hquiet : meadow.QuietHistory quietYear := by
    refine ⟨fun _ => trivial, fun _ => trivial, fun _ => nofun, fun _ => ?_, fun _ => ?_,
      fun h => ?_, fun _ => ?_, trivial⟩
    · rw [Quiet]
      decide +kernel
    · rw [Quiet]
      decide
    · cases h
    · rw [Quiet]
      decide +kernel
  exact ⟨⟨hwell, hborn, hquiet⟩, hafter meadow quietYear hwell hborn hquiet,
    (hreset meadow 8 .random).2 9 (by decide) 3 (by decide)⟩

end Grid

end TapeLife
