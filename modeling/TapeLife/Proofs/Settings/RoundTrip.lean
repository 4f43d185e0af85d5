import TapeLife.Proofs.Settings.Check
import TapeLife.Proofs.Settings.Values

/-!
# Proofs/Settings/RoundTrip — settings are read back from the document they are written to

    settings ──entries──▸ lines ──join──▸ text
        ▲                                  │ ofText
        └──────── readSection ◂── nodes ◂──┘

The lines of a section are entries that are read back (`writtenAt_fields`), so the text of the
settings is a document with an entry for every section (`Settings.nodeOfText_toText`).  Every field
gets back what it was, and the rate what sixty-four bits leave of it
(`Settings.ofText_toText_of_rate`), which is the rate itself with one exception
(`Settings.ofText_toText`).
-/

namespace TapeLife

open Yaml

/-! ## Lines -/

/-- Lines as they stand in a text. -/
def joinLines (lines : List String) : List Char := lines.flatMap fun line => line.toList ++ ['\n']

theorem toList_toText (s : Settings) : s.toText.toList = joinLines s.lines := by
  rw [Settings.toText, String.toList_join, List.flatMap_map, joinLines]
  simp only [String.toList_append]
  rfl

/-- Entries whose values are on the lines of their keys. -/
def fieldEntries (entries : List (String × String)) (nodes : List Node) : List Yaml.Entry :=
  (entries.zip nodes).map fun (entry, node) => .line entry.1 entry.2 node

/-- What is written for every field is read as its node. -/
inductive FieldsRead : List (String × String) → List Node → Prop
  | nil : FieldsRead [] []
  | cons {key text : String} {node : Node} {entries : List (String × String)} {nodes : List Node}
    (hkey : isKey key.toList = true) (hread : ReadsAs text.toList node)
    (h : FieldsRead entries nodes) : FieldsRead ((key, text) :: entries) (node :: nodes)

section Fields

variable {entries : List (String × String)} {nodes : List Node} (h : FieldsRead entries nodes)
include h

theorem writtenAt_fields (column : ℕ) : ∀ e ∈ fieldEntries entries nodes, e.WrittenAt column := by
  induction h with
  | nil => simp [fieldEntries]
  | cons hkey hread _ ih =>
    rw [fieldEntries, List.zip_cons_cons, List.map_cons, List.forall_mem_cons]
    exact ⟨⟨isKeyText_toList hkey, hread.holdsAt 0⟩, ih⟩

theorem textsAt_fields (column : ℕ) :
    Yaml.Entry.textsAt column (fieldEntries entries nodes)
      = joinLines (entryLines column entries) := by
  induction h with
  | nil => rfl
  | cons _ _ _ ih =>
    rw [fieldEntries, List.zip_cons_cons, List.map_cons, Yaml.Entry.textsAt, List.flatMap_cons,
      entryLines, List.map_cons, joinLines, List.flatMap_cons]
    congr 1
    simp [Yaml.Entry.text, Yaml.Entry.line]

end Fields

/-! ## Sections -/

/-- A section of a document. -/
def sectionEntry (name : String) (entries : List (String × String)) (nodes : List Node) :
    Yaml.Entry :=
  ⟨name.toList, .scalar true name, '\n' :: Yaml.Entry.textsAt 2 (fieldEntries entries nodes),
    .mapping ((fieldEntries entries nodes).map Yaml.Entry.node)⟩

theorem writtenAt_section {name : String} {entry : String × String}
    {entries : List (String × String)} {node : Node} {nodes : List Node}
    (hname : isKey name.toList = true) (h : FieldsRead (entry :: entries) (node :: nodes)) :
    (sectionEntry name (entry :: entries) (node :: nodes)).WrittenAt 0 :=
  ⟨isKeyText_toList hname, holdsAt_mapping (by decide) (writtenAt_fields h 2)⟩

theorem text_section {name : String} {entries : List (String × String)} {nodes : List Node}
    (h : FieldsRead entries nodes) :
    (sectionEntry name entries nodes).text = joinLines (sectionLines name entries) := by
  rw [sectionEntry, Yaml.Entry.text, textsAt_fields h, sectionLines, joinLines, joinLines,
    List.flatMap_cons]
  simp [indentStep]

/-- A string as it is read, however it is written. -/
def stringNode (text : String) : Node := .scalar (formOf text = .plain) text

/-- A string whose characters can be written without escapes. -/
def IsPrintable (text : String) : Prop := ∀ c ∈ text.toList, isPrintable c = true

instance (text : String) : Decidable (IsPrintable text) :=
  decidable_of_iff (text.toList.all isPrintable = true) List.all_eq_true

theorem readsAs_string {text : String} (h : IsPrintable text) (column : ℕ) :
    ReadsAs (stringText column text).toList (stringNode text) := readsAs_stringText h column

theorem readString_stringNode (name text : String) : readString name (stringNode text) = .ok text :=
  rfl

/-! ### Parameters -/

namespace Params

variable (p : Params)

/-- The values of the fields as they are read. -/
def nodes : List Node := p.entries.map fun entry => plainNode entry.2

theorem fieldsRead (h : p.rate.isFraction = true) : FieldsRead p.entries p.nodes :=
  .cons (by decide) (readsAs_decimalText _) <| .cons (by decide) (readsAs_boolText _) <|
  .cons (by decide) (readsAs_wordText _) <| .cons (by decide) (readsAs_wordText _) <|
  .cons (by decide) (readsAs_render h) <| .cons (by decide) (readsAs_wordText _) <|
  .cons (by decide) (readsAs_wordText _) .nil

/-- **Parameters are read back**, with the rate that is read from its text. -/
theorem readSection_nodes {rate : Single}
    (h : (double? (numberStyle.render p.rate).toList).map Single.ofBinary = some rate)
    (name : String) : readSection paramsFields .standard name
      (.mapping ((fieldEntries p.entries p.nodes).map Yaml.Entry.node))
        = .ok { p with rate := rate } := by
  simp [readSection, readEntries, fieldEntries, entries, nodes, Yaml.Entry.line, Yaml.Entry.node,
    paramsFields, Field.of, readWide_decimalText, readBool_boolText, readWord_wordText,
    readRate_render _ h, Except.map, bind, Except.bind]

end Params

/-! ### Runs -/

namespace RunSettings

variable (r : RunSettings)

/-- The values of the fields as they are read. -/
def nodes : List Node := r.entries.map fun entry => plainNode entry.2

theorem fieldsRead : FieldsRead r.entries r.nodes :=
  .cons (by decide) (readsAs_wordText _) <| .cons (by decide) (readsAs_wordText _) <|
  .cons (by decide) (readsAs_fillText _) <| .cons (by decide) (readsAs_wordText _) .nil

theorem readSection_nodes (name : String) : readSection runFields .standard name
    (.mapping ((fieldEntries r.entries r.nodes).map Yaml.Entry.node)) = .ok r := by
  simp [readSection, readEntries, fieldEntries, entries, nodes, Yaml.Entry.line, Yaml.Entry.node,
    runFields, Field.of, readWord_wordText, readFill_text, Except.map, bind, Except.bind]

end RunSettings

/-! ### Seeds -/

namespace SeedSettings

variable (s : SeedSettings)

/-- The values of the fields as they are read. -/
def nodes : List Node :=
  [plainNode (int32Text s.x), plainNode (int32Text s.y), plainNode (int32Text s.program),
    stringNode s.code]

theorem fieldsRead (h : IsPrintable s.code) : FieldsRead s.entries s.nodes :=
  .cons (by decide) (readsAs_int32Text _) <| .cons (by decide) (readsAs_int32Text _) <|
  .cons (by decide) (readsAs_int32Text _) <| .cons (by decide) (readsAs_string h _) .nil

theorem readSection_nodes (name : String) : readSection seedFields .standard name
    (.mapping ((fieldEntries s.entries s.nodes).map Yaml.Entry.node)) = .ok s := by
  simp [readSection, readEntries, fieldEntries, entries, nodes, Yaml.Entry.line, Yaml.Entry.node,
    seedFields, Field.of, readInt32_int32Text, readString_stringNode, Except.map, bind,
    Except.bind]

/-- A seed as an item of a sequence: the first of its fields stands on the line of the dash. -/
def item : Yaml.Item :=
  ⟨' ' :: (Yaml.Entry.textsAt 2 (fieldEntries s.entries s.nodes)).drop 2,
    .mapping ((fieldEntries s.entries s.nodes).map Yaml.Entry.node)⟩

theorem writtenAt_item (h : IsPrintable s.code) : s.item.WrittenAt 0 :=
  (standsAt_mapping (writtenAt_fields (s.fieldsRead h) 2)).holdsAt_compact (n := 0)

theorem text_item : s.item.text = joinLines s.lines := by
  simp [item, Yaml.Item.text, Yaml.Entry.text, Yaml.Entry.line, Yaml.Entry.textsAt, fieldEntries,
    entries, nodes, lines, entryLines, joinLines, List.replicate]

end SeedSettings

/-- The seeds as an entry of the document. -/
def seedsEntry (seeds : List SeedSettings) : Yaml.Entry :=
  ⟨"seeds".toList, .scalar true "seeds", if seeds.isEmpty then [' ', '[', ']', '\n']
    else '\n' :: Yaml.Item.textsAt 0 (seeds.map SeedSettings.item),
    .sequence ((seeds.map SeedSettings.item).map Yaml.Item.value)⟩

section Seeds

variable {seeds : List SeedSettings}

theorem writtenAt_seeds (h : ∀ seed ∈ seeds, IsPrintable seed.code) :
    (seedsEntry seeds).WrittenAt 0 := by
  refine ⟨isKeyText_toList (by decide : isKey "seeds".toList = true), ?_⟩
  cases seeds with
  | nil => exact readsAs_brackets.holdsAt 0
  | cons seed seeds =>
    have hwritten : ∀ j ∈ seed.item :: seeds.map SeedSettings.item, j.WrittenAt 0 := fun j hj => by
      obtain ⟨seed', hseed', rfl⟩ := List.mem_map.mp (List.map_cons ▸ hj)
      exact seed'.writtenAt_item (h seed' hseed')
    exact holdsAt_flush hwritten

theorem text_seeds (seeds : List SeedSettings) :
    (seedsEntry seeds).text = joinLines (seedsLines seeds) := by
  cases seeds with
  | nil => rfl
  | cons seed seeds =>
    have hitems : Yaml.Item.textsAt 0 ((seed :: seeds).map SeedSettings.item)
        = joinLines ((seed :: seeds).flatMap SeedSettings.lines) := by
      rw [Yaml.Item.textsAt, List.flatMap_map, joinLines, List.flatMap_assoc]
      exact List.flatMap_congr fun s _ => s.text_item
    rw [seedsEntry, Yaml.Entry.text, seedsLines, List.isEmpty_cons, if_neg (by decide),
      if_neg (by decide), hitems, joinLines, joinLines, List.flatMap_cons]
    simp

/-- **The seeds are read back**, item by item. -/
theorem readSeeds_node (seeds : List SeedSettings) (name : String) :
    readSeeds name (seedsEntry seeds).value = .ok seeds := by
  have hitem (s : SeedSettings) :
      readSection seedFields .standard name s.item.value = .ok s := s.readSection_nodes name
  simp only [readSeeds, seedsEntry]
  induction seeds with
  | nil => rfl
  | cons seed seeds ih =>
    rw [List.map_cons, List.map_cons, List.mapM_cons, hitem, ih]
    rfl

end Seeds

/-! ### Snapshots and censuses -/

namespace CheckpointSettings

variable (c : CheckpointSettings)

/-- The values of the fields as they are read. -/
def nodes : List Node :=
  [plainNode (boolText c.enabled), plainNode (wordText c.interval), stringNode c.path,
    stringNode c.resumeFrom]

theorem fieldsRead (hpath : IsPrintable c.path) (hresume : IsPrintable c.resumeFrom) :
    FieldsRead c.entries c.nodes :=
  .cons (by decide) (readsAs_boolText _) <| .cons (by decide) (readsAs_wordText _) <|
  .cons (by decide) (readsAs_string hpath _) <| .cons (by decide) (readsAs_string hresume _) .nil

theorem readSection_nodes (name : String) : readSection checkpointFields .standard name
    (.mapping ((fieldEntries c.entries c.nodes).map Yaml.Entry.node)) = .ok c := by
  simp [readSection, readEntries, fieldEntries, entries, nodes, Yaml.Entry.line, Yaml.Entry.node,
    checkpointFields, Field.of, readBool_boolText, readWord_wordText, readString_stringNode,
    Except.map, bind, Except.bind]

end CheckpointSettings

namespace MetricsSettings

variable (m : MetricsSettings)

/-- The values of the fields as they are read. -/
def nodes : List Node :=
  [plainNode (boolText m.enabled), plainNode (wordText m.interval), stringNode m.outputFile,
    plainNode (wordText m.brotliQuality)]

theorem fieldsRead (h : IsPrintable m.outputFile) : FieldsRead m.entries m.nodes :=
  .cons (by decide) (readsAs_boolText _) <| .cons (by decide) (readsAs_wordText _) <|
  .cons (by decide) (readsAs_string h _) <| .cons (by decide) (readsAs_wordText _) .nil

theorem readSection_nodes (name : String) : readSection metricsFields .standard name
    (.mapping ((fieldEntries m.entries m.nodes).map Yaml.Entry.node)) = .ok m := by
  simp [readSection, readEntries, fieldEntries, entries, nodes, Yaml.Entry.line, Yaml.Entry.node,
    metricsFields, Field.of, readBool_boolText, readWord_wordText, readString_stringNode,
    Except.map, bind, Except.bind]

end MetricsSettings

/-! ## Documents -/

namespace Settings

variable {s : Settings}

/-- The strings of the settings can be written without escapes. -/
structure HasPrintableTexts (s : Settings) : Prop where
  code : ∀ seed ∈ s.seeds, IsPrintable seed.code
  path : IsPrintable s.checkpoint.path
  resumeFrom : IsPrintable s.checkpoint.resumeFrom
  outputFile : IsPrintable s.metrics.outputFile

/-- The settings as the entries of a document. -/
def document (s : Settings) : List Yaml.Entry :=
  [sectionEntry "world" s.world.entries s.world.nodes, sectionEntry "run" s.run.entries s.run.nodes,
    seedsEntry s.seeds, sectionEntry "checkpoint" s.checkpoint.entries s.checkpoint.nodes,
    sectionEntry "metrics" s.metrics.entries s.metrics.nodes]

section Document

variable (hrate : s.world.rate.isFraction = true) (hprint : s.HasPrintableTexts)
include hrate hprint

/-- The text of the settings is a document of their entries. -/
theorem textsAt_document : Yaml.Entry.textsAt 0 s.document = s.toText.toList := by
  have hworld : (sectionEntry "world" s.world.entries s.world.nodes).text
      = joinLines (sectionLines "world" s.world.entries) := text_section (s.world.fieldsRead hrate)
  have hrun : (sectionEntry "run" s.run.entries s.run.nodes).text
      = joinLines (sectionLines "run" s.run.entries) := text_section s.run.fieldsRead
  have hcheckpoint : (sectionEntry "checkpoint" s.checkpoint.entries s.checkpoint.nodes).text
      = joinLines (sectionLines "checkpoint" s.checkpoint.entries) :=
    text_section (s.checkpoint.fieldsRead hprint.path hprint.resumeFrom)
  have hmetrics : (sectionEntry "metrics" s.metrics.entries s.metrics.nodes).text
      = joinLines (sectionLines "metrics" s.metrics.entries) :=
    text_section (s.metrics.fieldsRead hprint.outputFile)
  rw [toList_toText, lines]
  simp [document, Yaml.Entry.textsAt, hworld, hrun, hcheckpoint, hmetrics, text_seeds, joinLines]

theorem writtenAt_document : ∀ e ∈ s.document, e.WrittenAt 0 := by
  simp only [document, List.forall_mem_cons]
  exact ⟨writtenAt_section (by decide) (s.world.fieldsRead hrate),
    writtenAt_section (by decide) s.run.fieldsRead, writtenAt_seeds hprint.code,
    writtenAt_section (by decide) (s.checkpoint.fieldsRead hprint.path hprint.resumeFrom),
    writtenAt_section (by decide) (s.metrics.fieldsRead hprint.outputFile),
    List.forall_mem_nil _⟩

theorem nodeOfText_toText :
    Node.ofText s.toText = .ok (.mapping (s.document.map Yaml.Entry.node)) := by
  have htext : String.ofList (Yaml.Entry.textsAt 0 s.document) = s.toText := by
    rw [textsAt_document hrate hprint, String.ofList_toList]
  rw [← htext]
  exact ofText_textsAt (writtenAt_document hrate hprint)

/-- **Settings are read back**, with the rate that is read from its text. -/
theorem ofText_toText_of_rate {rate : Single}
    (h : (double? (numberStyle.render s.world.rate).toList).map Single.ofBinary = some rate) :
    ofText s.toText = .ok { s with world := { s.world with rate := rate } } := by
  have hworld := s.world.readSection_nodes h "world"
  have hrun := s.run.readSection_nodes "run"
  have hseeds : readSeeds "seeds" (.sequence ((s.seeds.map SeedSettings.item).map Yaml.Item.value))
      = .ok s.seeds := readSeeds_node s.seeds "seeds"
  have hcheckpoint := s.checkpoint.readSection_nodes "checkpoint"
  have hmetrics := s.metrics.readSection_nodes "metrics"
  rw [ofText, nodeOfText_toText hrate hprint]
  simp [ofNode, readSection.eq_1, readEntries, document, sectionEntry, seedsEntry, Yaml.Entry.node,
    settingsFields, Field.of, hworld, hrun, hseeds, hcheckpoint, hmetrics, Except.map, bind,
    Except.bind, -List.map_map]

end Document

/-- **Settings that pass the check are read back as they were written**, whatever their strings look
like.  One rate is not: its shortest text is half way between two rates for whoever reads it with
sixty-four bits first, and the other rate is the even one. -/
theorem ofText_toText (hcheck : ∃ warnings, s.check = .ok warnings) (hprint : s.HasPrintableTexts) :
    (s.world.rate ≠ .unstable → ofText s.toText = .ok s) ∧
      (s.world.rate = .unstable →
        ofText s.toText = .ok { s with world := { s.world with rate := ⟨0x15ae43fe⟩ } }) := by
  have hrate := (check_succeeds_iff.mp hcheck).1.rate_isFraction
  constructor
  · intro hstable
    exact ofText_toText_of_rate hrate hprint (Single.double?_render hrate hstable)
  · intro hunstable
    refine ofText_toText_of_rate hrate hprint ?_
    rw [hunstable]
    exact Single.double?_render_unstable

/-- Settings whose strings look like something else, with the smallest rate above zero. -/
def awkward : Settings :=
  { standard with
    world := { Params.standard with rate := ⟨1⟩ }
    seeds := [⟨195, 119, -7, "[-]: 'no' # \x22+\x22 "⟩, .standard]
    checkpoint := { CheckpointSettings.standard with path := "~", resumeFrom := "0x1F" }
    metrics := { MetricsSettings.standard with outputFile := "- null" } }

/-- Settings with the rate that is read back as its neighbour. -/
def unsteady : Settings := { standard with world := { Params.standard with rate := .unstable } }

theorem hasPrintableTexts_unsteady : unsteady.HasPrintableTexts :=
  ⟨by decide, by decide, by decide, by decide⟩

theorem ofText_toText_awkward :
    ((awkward.check = .ok [] ∧ awkward.HasPrintableTexts) ∧ ofText awkward.toText = .ok awkward) ∧
      (unsteady.check = .ok [] ∧ unsteady.HasPrintableTexts) ∧ ofText unsteady.toText =
        .ok { standard with world := { Params.standard with rate := ⟨0x15ae43fe⟩ } } := by
  have hcheck : awkward.check = .ok [] := by decide +kernel
  have hprint : awkward.HasPrintableTexts := ⟨by decide, by decide, by decide, by decide⟩
  have hcheck' : unsteady.check = .ok [] := by decide +kernel
  exact ⟨⟨⟨hcheck, hprint⟩, (ofText_toText ⟨[], hcheck⟩ hprint).1 (by decide)⟩,
    ⟨hcheck', hasPrintableTexts_unsteady⟩,
    (ofText_toText ⟨[], hcheck'⟩ hasPrintableTexts_unsteady).2 rfl⟩

/-- Not all settings that pass the check are read back. -/
theorem ofText_toText_ne_unsteady :
    unsteady.check = .ok [] ∧ unsteady.HasPrintableTexts ∧ ofText unsteady.toText ≠ .ok unsteady := by
  refine ⟨by decide +kernel, hasPrintableTexts_unsteady, fun heq => ?_⟩
  rw [ofText_toText_of_rate (by decide) hasPrintableTexts_unsteady
    Single.double?_render_unstable] at heq
  exact absurd (Except.ok.inj heq) (by decide)

end Settings

end TapeLife
