import DecoderForge.Generation
import DecoderForge.Proofs.Schema.Names

/-!
# DecoderForge — decoders, imports and validator files of a plan

Whatever compiles the validators, the three lists that follow from a plan speak of the same definitions: one
decoder for each, and an import and a file for each decoder with a validator of its own.  The paths of
the files differ because the identifiers do.

## The architecture

* **`Plan.ofSchema_eq_ok_iff`** — what a plan is made from.
* **`Plan.imports_eq`**, **`Plan.paths_eq`** — imports and files, one for each precompiled decoder.
* **`Plan.nodup_paths`** — no two files share a path.
* **`Plan.artifacts_correspond`** — how the artifacts of a plan hang together.
-/

namespace DecoderForge

/-! ## Decoders -/

namespace PlannedDecoder

@[simp] theorem name_entry (d : PlannedDecoder) : d.entry.name = d.definition.name := by
  unfold entry
  cases d.source <;> rfl

@[simp] theorem key_entry (d : PlannedDecoder) : d.entry.key = d.definition.key := by
  unfold entry
  cases d.source <;> rfl

/-- A definition is looked up by pointer when it has no module. -/
@[simp] theorem isPointerLookup_entry (d : PlannedDecoder) :
    d.entry.isPointerLookup = d.source.isNone := by
  unfold entry
  cases d.source <;> rfl

end PlannedDecoder

namespace Plan

/-- What a plan is made from: the definitions of the schema, their identifiers, and the module that each can
have. -/
theorem ofSchema_eq_ok_iff {compiler : ValidatorCompiler} {o : GenerateOptions} {schema : Json} {p : Plan} :
    ofSchema compiler o schema = .ok p
      ↔ ∃ ds, Definitions.ofSchema schema = .ok p.definitions
        ∧ p.definitions.enumerate o.naming o.collision = .ok ds
        ∧ p.planned = ds.map fun d => ⟨d, sourceOf? compiler o.mode p.schema d⟩ := by
  obtain ⟨definitions', planned⟩ := p
  unfold ofSchema
  cases hdefinitions : Definitions.ofSchema schema with
  | error e => simp [bind, Except.bind]
  | ok definitions =>
      cases hnamed : definitions.enumerate o.naming o.collision with
      | error e =>
          simp only [bind, Except.bind, hnamed]
          constructor
          · intro h
            exact absurd h (by simp)
          · rintro ⟨ds, heq, hds, -⟩
            rw [← Except.ok.inj heq, hnamed] at hds
            exact absurd hds (by simp)
      | ok ds =>
          simp only [bind, Except.bind, hnamed, pure, Except.pure, Except.ok.injEq, Plan.mk.injEq]
          constructor
          · rintro ⟨rfl, rfl⟩
            exact ⟨ds, rfl, hnamed, rfl⟩
          · rintro ⟨ds', rfl, hds, hplanned⟩
            obtain rfl := Except.ok.inj (hnamed.symm.trans hds)
            exact ⟨rfl, hplanned.symm⟩

/-- A definition has a module when validators are compiled ahead, one is bound and it can be written. -/
theorem sourceOf?_eq_some_iff {compiler : ValidatorCompiler} {mode : Mode} {schema : Json} {d : Definition}
    {text : String} :
    sourceOf? compiler mode schema d = some text
      ↔ mode = .pack ∧ ∃ b, compiler.bind schema d.pointer = some b
          ∧ compiler.standaloneSource schema b = .ok text := by
  have htoOption (x : Except String String) : x.toOption = some text ↔ x = .ok text := by
    cases x <;> simp [Except.toOption]
  cases mode with
  | noPack => simp [sourceOf?]
  | pack => simp [sourceOf?, Option.bind_eq_some_iff, htoOption]

/-- The decoders with a validator of their own. -/
def precompiled (p : Plan) : List DecoderEntry := p.decoders.filter fun e => !e.isPointerLookup

/-! ## Imports and files -/

/-- **There is one import for each precompiled decoder**, of its identifier from its file. -/
theorem imports_eq (p : Plan) (style : Style) :
    p.imports style = p.precompiled.map fun e =>
      "import " ++ validatorIdent e.name ++ " from " ++ style.quote ("./" ++ validatorFile e.name) ++ ";" := by
  unfold imports precompiled decoders
  induction p.planned with
  | nil => rfl
  | cons d rest ih =>
      cases hsource : d.source with
      | none => simp [PlannedDecoder.importLine?, hsource, ih]
      | some text => simp [PlannedDecoder.importLine?, hsource, ih]

/-- **There is one file for each precompiled decoder**, in the same order. -/
theorem paths_eq (p : Plan) :
    p.pending.map PendingFile.path = p.precompiled.map fun e => validatorFile e.name := by
  unfold pending precompiled decoders
  induction p.planned with
  | nil => rfl
  | cons d rest ih =>
      cases hsource : d.source with
      | none => simp [PlannedDecoder.pendingFile?, hsource, ih]
      | some text => simp [PlannedDecoder.pendingFile?, hsource, ih]

/-- Different identifiers make different files. -/
theorem validatorFile_injective {a b : String} (h : validatorFile a = validatorFile b) : a = b := by
  have hchars := congrArg String.toList h
  unfold validatorFile at hchars
  rw [String.toList_append, String.toList_append] at hchars
  exact String.toList_inj.mp (List.append_cancel_right hchars)

/-- The file of a validator is never the module. -/
theorem validatorFile_ne_indexFile (name : String) : validatorFile name ≠ indexFile := by
  intro h
  have hlength := congrArg (fun s : String => s.toList.length) h
  simp only [validatorFile, indexFile, String.toList_append, List.length_append] at hlength
  have hending : ".validate.js".toList.length = 12 := rfl
  have hindex : "index.ts".toList.length = 8 := rfl
  omega

/-- The identifiers of the decoders differ. -/
theorem nodup_names {compiler : ValidatorCompiler} {o : GenerateOptions} {schema : Json} {p : Plan}
    (h : ofSchema compiler o schema = .ok p) : (p.decoders.map DecoderEntry.name).Nodup := by
  obtain ⟨ds, -, hnamed, hplanned⟩ := ofSchema_eq_ok_iff.mp h
  have hnames : p.decoders.map DecoderEntry.name = ds.map Definition.name := by
    unfold decoders
    rw [hplanned, List.map_map, List.map_map]
    exact List.map_congr_left fun d _ => PlannedDecoder.name_entry _
  rw [hnames]
  exact Definitions.nodup_of_enumerate hnamed

/-- **No two files share a path.** -/
theorem nodup_paths {compiler : ValidatorCompiler} {o : GenerateOptions} {schema : Json} {p : Plan}
    (h : ofSchema compiler o schema = .ok p) : (p.pending.map PendingFile.path).Nodup := by
  have hnames : (p.precompiled.map DecoderEntry.name).Nodup :=
    (List.filter_sublist.map DecoderEntry.name).nodup (nodup_names h)
  have hpaths : p.pending.map PendingFile.path
      = (p.precompiled.map DecoderEntry.name).map validatorFile := by
    rw [paths_eq, List.map_map]
    rfl
  rw [hpaths]
  exact hnames.map fun _ _ => validatorFile_injective

/-! ## The artifacts together -/

/-- How the artifacts of a plan hang together. -/
structure ArtifactsCorrespond (compiler : ValidatorCompiler) (o : GenerateOptions) (ds : List Definition)
    (p : Plan) : Prop where
  /-- One decoder for each definition, in order, with its key and its identifier. -/
  decoders : p.decoders.map (fun e => (e.key, e.name)) = ds.map fun d => (d.key, d.name)
  /-- A precompiled decoder is named for its definition. -/
  idents : ∀ e ∈ p.precompiled, e.strategy = .precompiled (e.name ++ "$validate")
  /-- Any other looks up the definition of its key. -/
  lookups : ∀ e ∈ p.decoders, e ∉ p.precompiled → e.strategy = .pointerLookup (definitionPointer e.key)
  /-- The imports are those of the precompiled decoders, in order. -/
  imports : p.imports o.style = p.precompiled.map fun e =>
    "import " ++ (e.name ++ "$validate") ++ " from " ++ o.style.quote ("./" ++ (e.name ++ ".validate.js"))
      ++ ";"
  /-- The files are those of the precompiled decoders, in order. -/
  paths : p.pending.map PendingFile.path = p.precompiled.map fun e => e.name ++ ".validate.js"
  /-- No two files share a path. -/
  distinct : (p.pending.map PendingFile.path).Nodup
  /-- No file is the module. -/
  apart : ∀ f ∈ p.pending, f.path ≠ indexFile
  /-- A decoder is precompiled exactly when its validator is bound and written, and its file holds the text. -/
  chosen : ∀ e ∈ p.decoders, e ∈ p.precompiled
    ↔ o.pack = true ∧ ∃ b text, compiler.bind p.schema (definitionPointer e.key) = some b
        ∧ compiler.standaloneSource p.schema b = .ok text ∧ ⟨e.name ++ ".validate.js", text⟩ ∈ p.pending
  /-- Where validators are not compiled ahead there are neither imports nor files. -/
  unpacked : o.pack = false → p.imports o.style = [] ∧ p.pending = []

/-- The decoder of a definition has the strategy that its module allows. -/
theorem strategy_entry (d : PlannedDecoder) :
    d.entry.strategy = match d.source with
      | some _ => .precompiled (validatorIdent d.definition.name)
      | none => .pointerLookup (definitionPointer d.definition.key) := by
  unfold PlannedDecoder.entry
  cases d.source <;> rfl

/-- Precompiled decoders are those of definitions with a module. -/
theorem mem_precompiled {p : Plan} {d : PlannedDecoder} (hd : d ∈ p.planned) :
    d.entry ∈ p.precompiled ↔ d.source.isSome = true := by
  have hmem : d.entry ∈ p.decoders := List.mem_map_of_mem hd
  unfold precompiled
  rw [List.mem_filter, PlannedDecoder.isPointerLookup_entry, Option.not_isNone]
  exact and_iff_right hmem

/-- A decoder is precompiled exactly when its validator is bound and written, and then its file holds the
text. -/
theorem mem_precompiled_iff_written {compiler : ValidatorCompiler} {o : GenerateOptions} {schema : Json}
    {p : Plan} (h : ofSchema compiler o schema = .ok p) {e : DecoderEntry} (he : e ∈ p.decoders) :
    e ∈ p.precompiled
      ↔ o.pack = true ∧ ∃ b text, compiler.bind p.schema (definitionPointer e.key) = some b
          ∧ compiler.standaloneSource p.schema b = .ok text ∧ ⟨e.name ++ ".validate.js", text⟩ ∈ p.pending := by
  obtain ⟨ds, -, -, hplanned⟩ := ofSchema_eq_ok_iff.mp h
  obtain ⟨d, hd, rfl⟩ := List.mem_map.mp he
  have hmode : o.mode = .pack ↔ o.pack = true := by
    unfold GenerateOptions.mode
    split <;> simp_all
  have hsource : d.source = sourceOf? compiler o.mode p.schema d.definition := by
    rw [hplanned] at hd
    obtain ⟨_, -, rfl⟩ := List.mem_map.mp hd
    rfl
  rw [mem_precompiled hd, PlannedDecoder.key_entry, PlannedDecoder.name_entry]
  constructor
  · intro hsome
    obtain ⟨text, htext⟩ := Option.isSome_iff_exists.mp hsome
    obtain ⟨hpack, b, hbind, hwritten⟩ := sourceOf?_eq_some_iff.mp (hsource.symm.trans htext)
    refine ⟨hmode.mp hpack, b, text, hbind, hwritten, List.mem_filterMap.mpr ⟨d, hd, ?_⟩⟩
    simp [PlannedDecoder.pendingFile?, htext, validatorFile]
  · -- a bound validator that can be written is the source itself
    rintro ⟨hpack, b, text, hbind, hwritten, -⟩
    rw [hsource, sourceOf?_eq_some_iff.mpr ⟨hmode.mpr hpack, b, hbind, hwritten⟩]
    rfl

/-- **The artifacts of a plan hang together**, whatever compiles its validators. -/
theorem artifacts_correspond {compiler : ValidatorCompiler} {o : GenerateOptions} {schema : Json} {p : Plan}
    (h : ofSchema compiler o schema = .ok p) :
    ∃ ds, Definitions.ofSchema schema = .ok p.definitions
      ∧ p.definitions.enumerate o.naming o.collision = .ok ds
      ∧ ArtifactsCorrespond compiler o ds p := by
  obtain ⟨ds, hdefinitions, hnamed, hplanned⟩ := ofSchema_eq_ok_iff.mp h
  have hdecoders : p.decoders.map (fun e => (e.key, e.name)) = ds.map fun d => (d.key, d.name) := by
    unfold decoders
    rw [hplanned, List.map_map, List.map_map]
    exact List.map_congr_left fun d _ => by simp
  have hchosen := fun e he => mem_precompiled_iff_written (e := e) h he
  refine ⟨ds, hdefinitions, hnamed, hdecoders, ?_, ?_, p.imports_eq o.style, p.paths_eq, nodup_paths h, ?_,
    hchosen, ?_⟩
  · intro e he
    obtain ⟨d, hd, rfl⟩ := List.mem_map.mp (List.mem_of_mem_filter he)
    obtain ⟨text, htext⟩ := Option.isSome_iff_exists.mp ((mem_precompiled hd).mp he)
    rw [strategy_entry, htext, PlannedDecoder.name_entry]
    rfl
  · intro e he hnot
    obtain ⟨d, hd, rfl⟩ := List.mem_map.mp he
    have hnone : d.source = none := by
      rw [mem_precompiled hd, Bool.not_eq_true, Option.isSome_eq_false_iff, Option.isNone_iff_eq_none] at hnot
      exact hnot
    rw [strategy_entry, hnone, PlannedDecoder.key_entry]
  · intro f hf hindex
    have hpath : f.path ∈ p.pending.map PendingFile.path := List.mem_map_of_mem hf
    rw [paths_eq] at hpath
    obtain ⟨e, -, hfile⟩ := List.mem_map.mp hpath
    exact validatorFile_ne_indexFile e.name (hfile.trans hindex)
  · -- nothing is precompiled, and imports and files follow the precompiled decoders
    intro hpack
    have hnone : p.precompiled = [] := by
      refine List.eq_nil_iff_forall_not_mem.mpr fun e he => ?_
      exact absurd ((hchosen e (List.mem_of_mem_filter he)).mp he).1 (by simp [hpack])
    refine ⟨by rw [imports_eq, hnone]; rfl, ?_⟩
    have hpaths := p.paths_eq
    rw [hnone, List.map_nil, List.map_eq_nil_iff] at hpaths
    exact hpaths

/-- Binds every validator and can write the one for `a` only. -/
def picky : ValidatorCompiler where
  bind := fun _ pointer => some ⟨pointer, fun _ => []⟩
  standaloneSource := fun _ b => if b.pointer = "#/definitions/a" then .ok "a's" else .error "not a's"

/-- Of two definitions the first gets a file, the second no trace of one. -/
theorem artifacts_correspond_picky :
    ∃ p ds, ofSchema picky {} (.obj [("definitions", .obj [("a", .bool true), ("b", .bool true)])]) = .ok p
      ∧ ArtifactsCorrespond picky {} ds p
      ∧ p.decoders = [⟨"A", "a", .precompiled "A$validate"⟩, ⟨"B", "b", .pointerLookup "#/definitions/b"⟩]
      ∧ p.pending = [⟨"A.validate.js", "a's"⟩] := by
  have hplan : ofSchema picky {} (.obj [("definitions", .obj [("a", .bool true), ("b", .bool true)])])
      = .ok ⟨⟨[("a", .bool true), ("b", .bool true)], by simp⟩,
        [⟨⟨"a", "A", .bool true⟩, some "a's"⟩, ⟨⟨"b", "B", .bool true⟩, none⟩]⟩ := rfl
  obtain ⟨ds, -, -, hartifacts⟩ := artifacts_correspond hplan
  exact ⟨_, ds, hplan, hartifacts, rfl, rfl⟩

end Plan

end DecoderForge
