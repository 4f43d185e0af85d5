import TapeLife.Proofs.Yaml.Document
import TapeLife.Settings.Schema

/-!
# Proofs/Settings/Defaults — fields that are not given have their standard values

    seeds:              world ─▸ standard         run ─▸ ⟨50, 16, random, 256⟩
    - y: 4              seeds ─▸ [⟨0, 4, 1, ""⟩]      └ epochs is given, the rest is standard
    run:
      colour: red
      epochs: 50

An entry is known by the name of its field (`Schema.keyOf?_eq_some_iff`).  Entries that are not
known are passed over, and an entry that is known replaces the value of its field and nothing else,
so the order of entries does not matter (`Schema.readEntries_eq`).  Each section is read by itself,
and so is each seed (`Settings.ofNode_lists`).  A document is read as the entries it is built of,
whatever its scalars and its indentation look like, so what holds of entries holds of documents
(`Settings.ofText_select`).
-/

namespace TapeLife

open Yaml (Node Fault)

namespace Schema

variable {σ : Type} (M : Schema σ) {S : M.Key → Bool} {s : σ} {entries : List (Node × Node)}

/-! ## Fields -/

/-- Fields are found by the names of their keys. -/
theorem find?_fields (text : String) :
    M.fields.find? (·.name == text) = (M.keys.find? (M.name · == text)).map M.field :=
  List.find?_map

/-- **A key is found exactly by its own name**, since all keys are listed and have different names. -/
theorem keyOf?_eq_some_iff {plain : Bool} {text : String} {k : M.Key} :
    M.keyOf? (.scalar plain text) = some k ↔ M.name k = text := by
  rw [keyOf?]
  constructor
  · intro hfound
    have hname := List.find?_some hfound
    exact beq_iff_eq.mp hname
  · rintro rfl
    have hlisted : (M.keys.find? (M.name · == M.name k)).isSome = true :=
      List.find?_isSome.mpr ⟨k, M.mem_keys k, beq_self_eq_true _⟩
    obtain ⟨l, hfound⟩ := Option.isSome_iff_exists.mp hlisted
    have hname := List.find?_some hfound
    exact M.name_injective l k (beq_iff_eq.mp hname) ▸ hfound

theorem keysOf_cons_none {key : Node} (h : M.keyOf? key = none) (node : Node)
    (rest : List (Node × Node)) : M.keysOf ((key, node) :: rest) = M.keysOf rest :=
  List.filterMap_cons_none h

theorem keysOf_cons_some {key : Node} {k : M.Key} (h : M.keyOf? key = some k) (node : Node)
    (rest : List (Node × Node)) : M.keysOf ((key, node) :: rest) = k :: M.keysOf rest :=
  List.filterMap_cons_some h

/-- Where nothing is chosen, everything is standard. -/
theorem select_of_none (h : ∀ k, S k = false) : M.select S s = M.standard := by
  have hvalues : (fun k => if S k then M.get s k else M.get M.standard k) = M.get M.standard :=
    funext fun k => by simp [h k]
  rw [select, hvalues, M.build_get]

/-! ## Entries -/

section Lists

variable {M} {plain : Bool} {text : String} {node : Node}

/-- Where nothing is chosen, nothing is listed. -/
theorem Lists.nil (h : ∀ k, S k = false) : M.Lists S s [] where
  scalar := List.forall_mem_nil _
  nodup := List.nodup_nil
  listed k := by simp [keysOf, h k]
  value := List.forall_mem_nil _

/-- What is not known may be listed as well. -/
theorem Lists.unknown (hkey : M.keyOf? (.scalar plain text) = none) (h : M.Lists S s entries) :
    M.Lists S s ((.scalar plain text, node) :: entries) where
  scalar := List.forall_mem_cons.mpr ⟨⟨_, _, rfl⟩, h.scalar⟩
  nodup := M.keysOf_cons_none hkey node entries ▸ h.nodup
  listed := M.keysOf_cons_none hkey node entries ▸ h.listed
  value := List.forall_mem_cons.mpr ⟨fun k hk => absurd (hkey.symm.trans hk) (by simp), h.value⟩

/-- A chosen field is listed once, under its name. -/
theorem Lists.known (k : M.Key) (hname : M.name k = text) (hk : S k = true)
    (hread : M.read k (M.name k) node = .ok (M.get s k))
    (h : M.Lists (Function.update S k false) s entries) :
    M.Lists S s ((.scalar plain text, node) :: entries) where
  scalar := List.forall_mem_cons.mpr ⟨⟨_, _, rfl⟩, h.scalar⟩
  nodup := by
    rw [M.keysOf_cons_some (M.keyOf?_eq_some_iff.mpr hname)]
    refine List.nodup_cons.mpr ⟨fun hmem => ?_, h.nodup⟩
    have hlisted := (h.listed k).mp hmem
    simp at hlisted
  listed l := by
    rw [M.keysOf_cons_some (M.keyOf?_eq_some_iff.mpr hname), List.mem_cons, h.listed]
    by_cases heq : l = k
    · simp [heq, hk]
    · simp [heq]
  value := List.forall_mem_cons.mpr ⟨fun l hl => by
    obtain rfl : k = l := M.name_injective k l (hname.trans (M.keyOf?_eq_some_iff.mp hl).symm)
    exact hread, h.value⟩

end Lists

/-- **The entries of a mapping are read in any order**: each of the fields that they name gets the
value of `s`, and the others keep what they had in `t`. -/
theorem readEntries_eq_build {seen : List String} {t : σ} (h : M.NamesOnce entries)
    (hseen : ∀ k ∈ M.keysOf entries, M.name k ∉ seen)
    (hvalue : ∀ e ∈ entries, ∀ k, M.keyOf? e.1 = some k →
      M.read k (M.name k) e.2 = .ok (M.get s k)) :
    readEntries M.fields seen t entries
      = .ok (M.build fun k => if k ∈ M.keysOf entries then M.get s k else M.get t k) := by
  induction entries generalizing seen t with
  | nil => simp [readEntries, keysOf, M.build_get]
  | cons entry rest ih =>
    obtain ⟨key, node⟩ := entry
    obtain ⟨⟨plain, text, hkey⟩, hscalar⟩ := List.forall_mem_cons.mp h.scalar
    obtain ⟨hfirst, hrest⟩ := List.forall_mem_cons.mp hvalue
    have hnodup := h.nodup
    simp only at hkey
    subst hkey
    rw [readEntries, M.find?_fields]
    cases hfind : M.keys.find? (M.name · == text) with
    | none =>
      have hnone : M.keyOf? (.scalar plain text) = none := hfind
      rw [M.keysOf_cons_none hnone] at hseen hnodup ⊢
      exact ih ⟨hscalar, hnodup⟩ hseen hrest
    | some k =>
      have hsome : M.keyOf? (.scalar plain text) = some k := hfind
      obtain rfl : M.name k = text := M.keyOf?_eq_some_iff.mp hsome
      rw [M.keysOf_cons_some hsome] at hseen hnodup ⊢
      obtain ⟨hnew, hseen⟩ := List.forall_mem_cons.mp hseen
      obtain ⟨hout, hnodup⟩ := List.nodup_cons.mp hnodup
      have hread : (M.field k).read node t
          = .ok (M.build (Function.update (M.get t) k (M.get s k))) :=
        congrArg (Except.map _) (hfirst k hsome)
      have hfresh : ∀ l ∈ M.keysOf rest, M.name l ∉ M.name k :: seen := fun l hl hmem => by
        rcases List.mem_cons.mp hmem with heq | hmem
        · exact hout (M.name_injective l k heq ▸ hl)
        · exact hseen l hl hmem
      have hcontains : seen.contains (M.name k) = false := by simpa using hnew
      simp only [Option.map_some, hcontains, hread, bind, Except.bind, Bool.false_eq_true, if_false]
      rw [ih ⟨hscalar, hnodup⟩ hfresh hrest]
      refine congrArg (fun values => Except.ok (M.build values)) (funext fun l => ?_)
      rw [M.get_build]
      by_cases heq : l = k
      · subst heq
        simp [hout]
      · simp [heq]

/-- **Entries that list the chosen fields are read as the section with the other fields standard.** -/
theorem readEntries_eq (h : M.Lists S s entries) :
    readEntries M.fields [] M.standard entries = .ok (M.select S s) := by
  rw [M.readEntries_eq_build h.toNamesOnce (fun _ _ => List.not_mem_nil) h.value, select]
  simp only [h.listed]

/-- **A section is read from a node that gives the chosen fields.** -/
theorem readSection_eq {fields : List (Field σ)} (hfields : M.fields = fields) {node : Node}
    (h : M.Gives S s node) (name : String) :
    readSection fields M.standard name node = .ok (M.select S s) := by
  subst hfields
  rw [Gives.eq_def] at h
  split at h
  · exact M.readEntries_eq h
  · rw [readSection, M.select_of_none h]
  · cases h

end Schema

/-! ## Seeds -/

/-- The seeds are read item by item. -/
theorem mapM_readSection {choice : Nat → SeedKey → Bool} {seeds : List SeedSettings}
    {items : List Node} (hlength : items.length = seeds.length)
    (h : ∀ i seed item, seeds[i]? = some seed → items[i]? = some item →
      seedSchema.Gives (choice i) seed item) (name : String) :
    items.mapM (readSection seedFields .standard name)
      = .ok (seeds.mapIdx fun i seed => seedSchema.select (choice i) seed) := by
  induction seeds generalizing items choice with
  | nil =>
    obtain rfl := List.length_eq_zero_iff.mp hlength
    rfl
  | cons seed seeds ih =>
    obtain ⟨item, items, rfl⟩ := List.exists_cons_of_length_eq_add_one hlength
    have hitem : readSection seedFields .standard name item
        = .ok (seedSchema.select (choice 0) seed) :=
      seedSchema.readSection_eq seedSchema_fields (h 0 seed item rfl rfl) name
    have hitems := @ih (fun i => choice (i + 1)) items (Nat.succ.inj hlength)
      fun i seed item => h (i + 1) seed item
    rw [List.mapM_cons, hitem, List.mapIdx_cons]
    simp only [hitems, bind, Except.bind, pure, Except.pure]

namespace Settings

variable {S : FieldKey → Bool} {s : Settings} {node : Node} {entries : List (Node × Node)}

theorem readSeeds_of_gives (h : GivesSeeds S s.seeds node) (name : String) :
    readSeeds name node = .ok (s.select S).seeds := by
  rw [GivesSeeds.eq_def] at h
  split at h
  · exact mapM_readSection h.1 h.2 name
  · rw [readSeeds, select, h, List.mapIdx_nil]
  · cases h

/-! ## Documents -/

/-- **Every section is read by itself**, from what gives its chosen fields. -/
theorem read_of_gives {k : SectionKey} (h : s.Gives S node k) (name : String) :
    settingsSchema.read k name node = .ok (settingsSchema.get (s.select S) k) := by
  cases k with
  | world => exact paramsSchema.readSection_eq paramsSchema_fields h name
  | run => exact runSchema.readSection_eq runSchema_fields h name
  | seeds => exact readSeeds_of_gives h name
  | checkpoint => exact checkpointSchema.readSection_eq checkpointSchema_fields h name
  | metrics => exact metricsSchema.readSection_eq metricsSchema_fields h name

/-- A section that is not there is read as its standard value. -/
theorem read_nothing (k : SectionKey) (name : String) :
    settingsSchema.read k name .nothing = .ok (settingsSchema.get .standard k) := by
  cases k <;> rfl

/-- **Entries that list the chosen fields are read as the settings with all others standard.** -/
theorem ofNode_lists (h : s.Lists S entries) : ofNode (.mapping entries) = .ok (s.select S) := by
  have hread : readEntries settingsSchema.fields [] standard entries = .ok _ :=
    settingsSchema.readEntries_eq_build h.toNamesOnce (fun _ _ => List.not_mem_nil)
      fun e he k hk => read_of_gives (h.given e he k hk) _
  rw [ofNode, ← settingsSchema_fields, readSection, hread]
  refine congrArg Except.ok ((congrArg settingsSchema.build (funext fun k => ?_)).trans
    (settingsSchema.build_get (s.select S)))
  split
  · rfl
  · rename_i hk
    exact Except.ok.inj ((read_nothing k "").symm.trans (read_of_gives (h.omitted k hk) ""))

/-- **Fields that are not given have the standard values of their sections.**  Take settings, choose
any of their fields, and list exactly these, each with a value that is read as that of the settings,
in any order of sections and of fields and among any others that are not known.  Whatever text is read
as such entries is read as the settings with everything else standard; and every document that is
built of such entries by indentation is read as them. -/
theorem ofText_select (s : Settings) (S : FieldKey → Bool) :
    (∀ text entries, Node.ofText text = .ok (.mapping entries) → s.Lists S entries →
      ofText text = .ok (s.select S)) ∧
    ∀ column (es : List Yaml.Entry), (∀ e ∈ es, e.IsBlockAt column) →
      s.Lists S (es.map Yaml.Entry.node) →
      ofText (String.ofList (Yaml.Entry.textsAt column es)) = .ok (s.select S) := by
  have hofText (text : String) (entries : List (Node × Node))
      (htext : Node.ofText text = .ok (.mapping entries)) (h : s.Lists S entries) :
      ofText text = .ok (s.select S) := by
    rw [ofText, htext]
    exact ofNode_lists h
  refine ⟨hofText, fun column es hblock h => ?_⟩
  cases es with
  | nil =>
    have hempty : Node.ofText (String.ofList (Yaml.Entry.textsAt column [])) = .ok .nothing :=
      Yaml.ofText_nil
    have hnothing : ofNode .nothing = ofNode (.mapping []) := rfl
    rw [ofText, hempty]
    exact hnothing.trans (ofNode_lists h)
  | cons e es =>
    exact hofText _ _ (Yaml.ofText_textsAt fun f hf => (hblock f hf).writtenAt) h

/-! ## A document with few fields -/

open Yaml (IsBlock IsScalarText isBlock_entries isBlock_items isKeyText_toList
  isScalarText_of_readInline)

/-- Settings that are far from standard. -/
def unusual : Settings :=
  { world := { Params.standard with seed := 7, width := 32, height := 5 }
    run := { RunSettings.standard with epochs := 50, init := .zero }
    seeds := [⟨3, 4, 5, "+[.>]"⟩, ⟨1, 1, 1, "x"⟩]
    checkpoint := .standard
    metrics := { MetricsSettings.standard with enabled := true } }

/-- A few of their fields. -/
def fewFields : FieldKey → Bool
  | .world .seed | .world .width | .run .epochs | .seed 0 .code => true
  | _ => false

/-- Two of the parameters, not in their own order. -/
def fewOfWorld : List Yaml.Entry :=
  [.line "width" "0x20" (.scalar true "0x20"), .line "seed" "7" (.scalar true "7")]

/-- One value of the run, and one that is not known. -/
def fewOfRun : List Yaml.Entry :=
  [.line "colour" "red" (.scalar true "red"), .line "epochs" "50" (.scalar true "50")]

/-- The code of the first seed, on the line of its dash. -/
def fewOfSeed : Yaml.Entry := .line "code" "'+[.>]'" (.scalar false "+[.>]")

/-- The first seed, and a second one of which nothing is given. -/
def fewSeeds : List Yaml.Item :=
  [⟨' ' :: fewOfSeed.text, .mapping [fewOfSeed.node]⟩, ⟨['\n'], .nothing⟩]

/-- A sequence that is not known. -/
def fewTags : List Yaml.Item := [⟨" \x22a: b\x22\n".toList, .scalar false "a: b"⟩]

/-- The document. -/
def fewText : String :=
  "tags:\n- \x22a: b\x22\nseeds:\n  - code: '+[.>]'\n  -\nworld:\n   width: 0x20\n   seed: 7\n"
    ++ "metrics:\nrun:\n  colour: red\n  epochs: 50\n"

/-- A document that lists these fields, with nothing in the section on censuses. -/
def fewEntries : List Yaml.Entry :=
  [⟨"tags".toList, .scalar true "tags", '\n' :: Yaml.Item.textsAt 0 fewTags,
      .sequence (fewTags.map Yaml.Item.value)⟩,
    ⟨"seeds".toList, .scalar true "seeds", '\n' :: Yaml.Item.textsAt 2 fewSeeds,
      .sequence (fewSeeds.map Yaml.Item.value)⟩,
    ⟨"world".toList, .scalar true "world", '\n' :: Yaml.Entry.textsAt 3 fewOfWorld,
      .mapping (fewOfWorld.map Yaml.Entry.node)⟩,
    ⟨"metrics".toList, .scalar true "metrics", ['\n'], .nothing⟩,
    ⟨"run".toList, .scalar true "run", '\n' :: Yaml.Entry.textsAt 2 fewOfRun,
      .mapping (fewOfRun.map Yaml.Entry.node)⟩]

theorem fewOfWorld_isBlockAt : ∀ e ∈ fewOfWorld, e.IsBlockAt 3 := by
  have hwidth : IsScalarText "0x20".toList (.scalar true "0x20") :=
    isScalarText_of_readInline (by decide) (by decide) (.inl (by decide)) (by cbv)
  have hseed : IsScalarText "7".toList (.scalar true "7") :=
    isScalarText_of_readInline (by decide) (by decide) (.inl (by decide)) (by cbv)
  rw [fewOfWorld, List.forall_mem_cons, List.forall_mem_singleton]
  exact ⟨.line (by decide) hwidth, .line (by decide) hseed⟩

theorem fewOfRun_isBlockAt : ∀ e ∈ fewOfRun, e.IsBlockAt 2 := by
  have hepochs : IsScalarText "50".toList (.scalar true "50") :=
    isScalarText_of_readInline (by decide) (by decide) (.inl (by decide)) (by cbv)
  rw [fewOfRun, List.forall_mem_cons, List.forall_mem_singleton]
  exact ⟨.line (by decide) ((isKeyText_toList (by decide)).toIsScalarText),
    .line (by decide) hepochs⟩

theorem fewSeeds_isBlock : ∀ i ∈ fewSeeds, IsBlock (.after .dash) 2 i.body i.value := by
  have hcode : IsScalarText "'+[.>]'".toList (.scalar false "+[.>]") :=
    isScalarText_of_readInline (by decide) (by decide) (.inr (.inr rfl)) (by cbv)
  have hentry : ∀ e ∈ [fewOfSeed], e.IsBlockAt 4 := by
    rw [List.forall_mem_singleton]
    exact .line (by decide) hcode
  have hmapping : IsBlock .here 4 (fewOfSeed.text ++ []) (.mapping [fewOfSeed.node]) :=
    .mapping (fun e he => (hentry e he).key) fun e he => (hentry e he).value
  rw [fewSeeds, List.forall_mem_cons, List.forall_mem_singleton]
  exact ⟨@IsBlock.compact 2 0 _ _ (by rwa [List.append_nil] at hmapping), .nothing⟩

theorem fewEntries_isBlockAt : ∀ e ∈ fewEntries, e.IsBlockAt 0 := by
  have htag : IsScalarText "\x22a: b\x22".toList (.scalar false "a: b") :=
    isScalarText_of_readInline (by decide) (by decide) (.inr (.inl rfl)) (by cbv)
  rw [fewEntries]
  simp only [List.forall_mem_cons, List.not_mem_nil, false_implies, implies_true, and_true]
  refine ⟨⟨isKeyText_toList (by decide), .flush fun i hi => ?_⟩,
    ⟨isKeyText_toList (by decide), isBlock_items (by decide) fewSeeds_isBlock⟩,
    ⟨isKeyText_toList (by decide), isBlock_entries (by decide) fewOfWorld_isBlockAt⟩,
    ⟨isKeyText_toList (by decide), .nothing⟩,
    ⟨isKeyText_toList (by decide), isBlock_entries (by decide) fewOfRun_isBlockAt⟩⟩
  obtain rfl := List.mem_singleton.mp hi
  exact .scalar 0 htag

theorem unusual_gives : ∀ e ∈ fewEntries.map Yaml.Entry.node, ∀ k,
    settingsSchema.keyOf? e.1 = some k → unusual.Gives fewFields e.2 k := by
  have hworld : unusual.Gives fewFields (.mapping (fewOfWorld.map Yaml.Entry.node)) .world :=
    .known ParamsKey.width rfl rfl rfl
      (.known ParamsKey.seed rfl rfl rfl (.nil fun k => by cases k <;> rfl))
  have hrun : unusual.Gives fewFields (.mapping (fewOfRun.map Yaml.Entry.node)) .run :=
    .unknown rfl (.known RunKey.epochs rfl rfl rfl (.nil fun k => by cases k <;> rfl))
  have hseeds : unusual.Gives fewFields (.sequence (fewSeeds.map Yaml.Item.value)) .seeds :=
    ⟨rfl, fun
      | 0, _, _, rfl, rfl => .known SeedKey.code rfl rfl rfl (.nil fun k => by cases k <;> rfl)
      | 1, _, _, rfl, rfl => fun k => by cases k <;> rfl
      | _ + 2, _, _, hseed, _ => by cases hseed⟩
  have hmetrics : unusual.Gives fewFields .nothing .metrics := fun k => by cases k <;> rfl
  rw [fewEntries]
  simp only [List.map_cons, List.map_nil, List.forall_mem_cons, List.not_mem_nil, false_implies,
    implies_true, and_true]
  exact ⟨nofun, fun | _, rfl => hseeds, fun | _, rfl => hworld, fun | _, rfl => hmetrics,
    fun | _, rfl => hrun⟩

theorem unusual_lists : unusual.Lists fewFields (fewEntries.map Yaml.Entry.node) where
  scalar e he := by
    obtain ⟨f, hf, rfl⟩ := List.mem_map.mp he
    simp only [fewEntries, List.mem_cons, List.not_mem_nil, or_false] at hf
    obtain rfl | rfl | rfl | rfl | rfl := hf <;> exact ⟨_, _, rfl⟩
  nodup := by decide +kernel
  given := unusual_gives
  omitted k hk := by
    have hk : k ∉ ([.seeds, .world, .metrics, .run] : List SectionKey) := hk
    cases k with
    | checkpoint => exact fun k => by cases k <;> rfl
    | _ => exact absurd (by decide) hk

/-- What the document does not give is standard, the second seed and the censuses as a whole. -/
theorem ofText_select_few : ofText fewText
    = .ok {
      world := { Params.standard with seed := 7, width := 32 }
      run := { RunSettings.standard with epochs := 50 }
      seeds := [{ SeedSettings.standard with code := "+[.>]" }, .standard]
      checkpoint := .standard
      metrics := .standard } := by
  have htext : fewText = String.ofList (Yaml.Entry.textsAt 0 fewEntries) := by decide +kernel
  rw [htext, (ofText_select unusual fewFields).2 0 fewEntries fewEntries_isBlockAt unusual_lists]
  rfl

end Settings

end TapeLife
