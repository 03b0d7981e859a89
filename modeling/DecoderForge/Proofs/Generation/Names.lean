import DecoderForge.Proofs.Generation.Failure
import DecoderForge.Proofs.Module.Names
import DecoderForge.Proofs.Types.Block

/-!
# DecoderForge — whether the names of a generated module differ

The policy on collisions compares definitions with each other.  The registry, its error, its issues and the
imported engine are not among them, so that a definition can have the name of one of these; and a registry
with a configured name can have the name of anything that is fixed.  There are no other collisions.

## The architecture

* **`Plan.topLevel_moduleNamed`** — what is introduced at the top of the module of a plan.
* **`Plan.nodup_topLevelNames_iff_apart`** — when its names differ, by the decoders of the plan.
* **`generate_names_nodup_iff`** — the same of every run that succeeds.
* **`type_named_like_registry`** — a run that succeeds and names a type like the registry.
-/

namespace DecoderForge

open Layout (outerLines)

/-! ## What a module introduces -/

/-- A declaration introduces its name behind its comment. -/
theorem Types.introduces_source (style : Style) (d : Types.Declaration) :
    ∃ statement, d.source style = String.ofList (docText d.doc) ++ statement ∧ Introduces statement d.name :=
  ⟨_, String.ofList_append, Types.introduces_body style d.name d.body⟩

/-- The statements at the top of a module, and the names of validators and types among those that they
introduce. -/
structure Module.TopLevel (m : Module) (validators types : List String) : Prop where
  /-- The declarations introduce the types, one after another. -/
  declarations : ∃ declared : List Types.Declaration,
    m.declarations = String.intercalate "\n\n" (declared.map (·.source m.style))
      ∧ declared.map Types.Declaration.name = types
      ∧ ∀ d ∈ declared, ∃ statement,
          d.source m.style = String.ofList (Types.docText d.doc) ++ statement ∧ Introduces statement d.name
  /-- Every other line outside all blocks introduces one name, but for the comment in front. -/
  lines : ∃ lines, outerLines 0 m.calls = "/* eslint-disable */" :: lines
    ∧ List.Forall₂ Introduces lines (m.importedNames validators ++ m.ownNames)

/-! ## The registry -/

/-- A registry that is named for a folder ends unlike validators and fixed names. -/
theorem Naming.ending_registryClass (n : Naming) (folder : String) :
    Module.ending (n.registryClass folder) = Module.ending registrySuffix := by
  unfold registryClass
  split
  · exact Module.ending_append _ (by decide)
  · rfl

namespace Plan

/-! ## The names of a plan -/

/-- The names of the validators that a module imports. -/
def validatorNames (p : Plan) : List String := p.precompiled.map fun e => validatorIdent e.name

/-- The names of the types that a module declares. -/
def typeNames (p : Plan) : List String :=
  (p.decoders.map DecoderEntry.name).filter (· != TypeCompiler.containerName)

theorem introduces_imports (p : Plan) (style : Style) :
    List.Forall₂ Introduces (p.imports style) p.validatorNames := by
  rw [imports_eq, validatorNames]
  refine List.forall₂_map_left_iff.mpr (List.forall₂_map_right_iff.mpr (List.forall₂_same.mpr fun e _ => ?_))
  have hfront : Introduces ("import " ++ validatorIdent e.name ++ " from ") (validatorIdent e.name) := by
    refine ⟨"import ", by decide, " ", by decide, "from ", ?_⟩
    have hfrom : " from " = " " ++ "from " := by decide
    rw [hfrom]
    exact (String.append_assoc ..).symm
  exact (hfront.append _).append _

section

variable {c : ValidatorCompiler} {o : GenerateOptions} {schema : Json} {p : Plan}

/-- The identifiers of decoders hold no dollar sign and do not begin with a small letter. -/
theorem shape_of_mem_typeNames (h : ofSchema c o schema = .ok p) {name : String} (hname : name ∈ p.typeNames) :
    '$' ∉ name.toList ∧ ∃ c rest, name.toList = c :: rest ∧ Text.isNoSmallLetter c = true := by
  obtain ⟨ds, -, hnamed, hplanned⟩ := ofSchema_eq_ok_iff.mp h
  have hmem := List.mem_of_mem_filter hname
  have hdefinitions : p.planned.map PlannedDecoder.definition = ds := by
    rw [hplanned, List.map_map]
    exact List.map_id ds
  rw [map_name_decoders, hdefinitions] at hmem
  obtain ⟨d, hd, rfl⟩ := List.mem_map.mp hmem
  refine ⟨fun hdollar => ?_, Definitions.head_of_enumerate hnamed d hd⟩
  exact absurd (Definitions.kept_of_enumerate Name.kept_isNoDollar hnamed d hd '$' hdollar) (by decide)

/-- **What is introduced at the top of the module of a plan.** -/
theorem topLevel_moduleNamed (h : ofSchema c o schema = .ok p) {text : String}
    (hblock : (TypeCompiler.builtIn o.naming o.collision).block p.definitions o.style = .ok text)
    (decoderName : String) : (p.moduleNamed o decoderName text).TopLevel p.validatorNames p.typeNames := by
  obtain ⟨declared, htext, hall⟩ := exists_declared h hblock
  refine ⟨⟨declared, htext, ?_, fun d _ => Types.introduces_source o.style d⟩, ?_⟩
  · rw [names_of_declares hall, map_name_apartFromContainer]
    rfl
  · exact Module.introduces_outerLines (p.introduces_imports o.style)

/-- **When the names at the top of the module of a plan differ**: no type may be named like the registry, its
error, its issues or the imported engine, and the registry may not be named like a validator or a fixed
name. -/
theorem nodup_topLevelNames_iff_apart (h : ofSchema c o schema = .ok p) (decoderName text : String) :
    let m := p.moduleNamed o decoderName text
    (m.topLevelNames p.validatorNames p.typeNames).Nodup
      ↔ (∀ t ∈ p.typeNames, t ∉ m.registryNames ∧ (m.usesLookup = true → t ≠ "Ajv"))
        ∧ decoderName ∉ m.fixedNames ++ p.validatorNames := by
  have hnames := nodup_names h
  -- the names of validators are those of decoders with the same text behind each
  have hvalidators : p.validatorNames.Nodup := by
    have hprecompiled : (p.precompiled.map DecoderEntry.name).Nodup :=
      (List.filter_sublist.map DecoderEntry.name).nodup hnames
    have hmap : p.validatorNames = (p.precompiled.map DecoderEntry.name).map validatorIdent := by
      rw [List.map_map]
      rfl
    rw [hmap]
    refine hprecompiled.map fun a b hab => ?_
    exact String.append_left_inj _ |>.mp hab
  have hsuffix : ∀ v ∈ p.validatorNames,
      '$' ∈ v.toList ∧ Module.ending v = Module.ending "$validate" := by
    intro v hv
    obtain ⟨e, -, rfl⟩ := List.mem_map.mp hv
    refine ⟨?_, Module.ending_append e.name (by decide)⟩
    show '$' ∈ (e.name ++ "$validate").toList
    rw [String.toList_append]
    exact List.mem_append_right _ (by decide)
  exact Module.nodup_topLevelNames_iff hvalidators hsuffix (List.filter_sublist.nodup hnames)
    (fun t ht => (shape_of_mem_typeNames h ht).1) (fun t ht => (shape_of_mem_typeNames h ht).2)

end

end Plan

/-! ## Whole runs -/

theorem Collaborators.formatter_eq_ok_iff {o : GenerateOptions} {source laid : String} {style : Style} :
    (builtIn o).formatter source style = .ok laid ↔ Layout.format source style = .ok laid := by
  have hformatter : (builtIn o).formatter source style
      = (Layout.format source style).mapError fun f => f.message := rfl
  rw [hformatter]
  cases Layout.format source style <;> simp [Except.mapError]

/-- A registry that is named for the output folder meets no validator and no fixed name. -/
theorem registryName_notMem {o : GenerateOptions} (hname : o.decoderName = none) (output : String) (d : Disk)
    (p : Plan) (m : Module) : registryName o output d ∉ m.fixedNames ++ p.validatorNames := by
  have hending : Module.ending (registryName o output d) = Module.ending registrySuffix := by
    unfold registryName
    rw [hname]
    exact Naming.ending_registryClass o.naming _
  intro hmem
  rcases List.mem_append.mp hmem with hmem | hmem
  · have hfixed : ∀ f ∈ Module.allFixedNames, Module.ending f ≠ Module.ending registrySuffix := by decide
    exact hfixed _ (Module.fixedNames_sublist.subset hmem) hending
  · obtain ⟨e, -, he⟩ := List.mem_map.mp hmem
    have hvalidator : Module.ending (validatorIdent e.name) = Module.ending "$validate" :=
      Module.ending_append e.name (by decide)
    rw [he, hending] at hvalidator
    exact absurd hvalidator (by decide)

/-- **When the names of a generated module differ.**  A run that succeeds writes the module of a plan, whose
statements at the top introduce its imports, its types and its own names.  No two of these are the same
exactly when no type is named like the registry, its error, its issues or the imported engine, and the
registry is not named like a validator or a fixed name; a registry named for the output folder never is. -/
theorem generate_names_nodup_iff {o : GenerateOptions} {mode : WriteMode} {schema : Json} {output : String}
    {d d' : Disk} {report : Report}
    (h : generate (.builtIn o) o mode schema output d = (.ok report, d')) :
    ∃ p text laid d₂ outcome,
      let m := p.moduleNamed o report.decoderName text
      Plan.ofSchema (.builtIn o.validator) o schema = .ok p
        ∧ Layout.format m.assemble o.style = .ok laid
        ∧ Run.update mode (pathIn output indexFile) laid d₂ = (.ok outcome, d')
        ∧ m.TopLevel p.validatorNames p.typeNames
        ∧ ((m.topLevelNames p.validatorNames p.typeNames).Nodup
          ↔ (∀ t ∈ p.typeNames, t ∉ m.registryNames ∧ (m.usesLookup = true → t ≠ "Ajv"))
            ∧ m.decoderName ∉ m.fixedNames ++ p.validatorNames)
        ∧ (o.decoderName = none → m.decoderName ∉ m.fixedNames ++ p.validatorNames) := by
  obtain ⟨p, d₁, validators, d₂, text, laid, outcome, hplan, -, -, htext, hlaid, hindex, rfl⟩ :=
    generate_eq_ok_iff.mp h
  exact ⟨p, text, laid, d₂, outcome, hplan, Collaborators.formatter_eq_ok_iff.mp hlaid, hindex,
    Plan.topLevel_moduleNamed hplan htext _,
    Plan.nodup_topLevelNames_iff_apart hplan _ text, fun hname => registryName_notMem hname output d₁ p _⟩

/-! ## A definition named like the registry -/

/-- The plan for a single definition, a string, that is looked up. -/
def lookedUp (name : String) : Plan :=
  ⟨⟨[(name, .obj [("type", .str "string")])], by simp⟩, [⟨⟨name, name, .obj [("type", .str "string")]⟩, none⟩]⟩

/-- The module for it in a folder `out`. -/
def lookedUpModule (name : String) : Module :=
  (lookedUp name).moduleNamed { pack := false } "OutDecoder" ("export type " ++ name ++ " = string;")

/-- The run into a folder that is not there. -/
theorem generate_lookedUp {name : String}
    (hplan : Plan.ofSchema (.builtIn {}) { pack := false } (lookedUp name).schema = .ok (lookedUp name))
    (hblock : (TypeCompiler.builtIn {} .error).block (lookedUp name).definitions {}
      = .ok ("export type " ++ name ++ " = string;"))
    (heven : ∀ s ∈ (lookedUp name).schema.texts, Types.Even s.toList)
    (hhint : typeHintKey ∉ (lookedUp name).schema.texts) :
    ∃ laid, Layout.format (lookedUpModule name).assemble {} = .ok laid
      ∧ generate (.builtIn { pack := false }) { pack := false } .write (lookedUp name).schema "out" workplace
          = (.ok ⟨"OutDecoder", .noPack, (lookedUp name).decoders, [⟨"out/index.ts", .written⟩]⟩,
            (workplace.put ["box", "work", "out"] .folder).put ["box", "work", "out", "index.ts"]
              (.file (Text.encode laid.toList))) := by
  have hnone : ∀ t, (lookedUp name).ReadsBelow {} t → t.getString? typeHintKey = none :=
    fun t => Plan.hint_eq_none_of_texts hhint
  have hlevel : ∀ t, (lookedUp name).ReadsBelow {} t → ∀ h, t.getString? typeHintKey = some h →
      Layout.Level h.toList := by
    intro t ht h hfound
    rw [hnone t ht] at hfound
    exact absurd hfound (by simp)
  have haccepted : (Layout.format (lookedUpModule name).assemble {}).isOk = true :=
    (Plan.format_moduleFor_isOk_iff hplan hblock hlevel "out").2 hnone heven
  -- the formatter takes the module, so that the run comes to its last file
  cases hlaid : Layout.format (lookedUpModule name).assemble {} with
  | error f =>
      rw [hlaid] at haccepted
      exact absurd haccepted Bool.false_ne_true
  | ok laid =>
      have hfolder : prepareOutput .write "out" workplace
          = (.ok (), workplace.put ["box", "work", "out"] .folder) := rfl
      have hmissing : Run.readExisting "out/index.ts" (workplace.put ["box", "work", "out"] .folder)
          = .ok none := rfl
      have hindex : Run.updated .write "out/index.ts" laid (workplace.put ["box", "work", "out"] .folder)
          = .ok (.written, (workplace.put ["box", "work", "out"] .folder).put ["box", "work", "out", "index.ts"]
            (.file (Text.encode laid.toList))) := by
        unfold Run.updated
        rw [hmissing]
        rfl
      have hupdate : Run.update .write "out/index.ts" laid (workplace.put ["box", "work", "out"] .folder)
          = (.ok .written, (workplace.put ["box", "work", "out"] .folder).put ["box", "work", "out", "index.ts"]
            (.file (Text.encode laid.toList))) := by
        rw [Run.update_apply, hindex]
      have hbatch : Run.updateAll .write ((lookedUp name).pendingIn "out")
          (workplace.put ["box", "work", "out"] .folder)
            = (.ok [], workplace.put ["box", "work", "out"] .folder) := rfl
      exact ⟨laid, rfl, generate_eq_ok_iff.mpr ⟨lookedUp name, _, [], _, _, laid, .written, hplan, hfolder,
        hbatch, hblock, Collaborators.formatter_eq_ok_iff.mpr hlaid, hupdate, rfl⟩⟩

/-- With any other name the names differ. -/
theorem generate_names_nodup_foo : ∃ (p : Plan) (text : String),
    p.typeNames = ["Foo"]
      ∧ ((p.moduleNamed { pack := false } "OutDecoder" text).topLevelNames p.validatorNames p.typeNames).Nodup := by
  have hplan : Plan.ofSchema (.builtIn {}) { pack := false } (lookedUp "Foo").schema = .ok (lookedUp "Foo") := rfl
  obtain ⟨laid, -, hrun⟩ := generate_lookedUp hplan rfl (by decide) (by decide)
  obtain ⟨p, text, -, -, -, hplan', -, -, -, hdistinct, -⟩ := generate_names_nodup_iff hrun
  obtain rfl : lookedUp "Foo" = p := Except.ok.inj (hplan.symm.trans hplan')
  refine ⟨lookedUp "Foo", text, rfl, hdistinct.mpr ⟨?_, ?_⟩⟩
  · show ∀ t ∈ ["Foo"], t ∉ ["OutDecoder", "OutDecoderError", "OutDecoderIssue"] ∧ (true = true → t ≠ "Ajv")
    decide
  · show "OutDecoder" ∉ ["Ajv", "Validator$", "describe$", "schema$", "engineOptions$", "engine$", "getEngine$",
      "decodeAt"]
    decide

/-- **A type named like the registry**: the run succeeds, and both are exported under one name. -/
theorem type_named_like_registry : ∃ laid,
    Layout.format (lookedUpModule "OutDecoder").assemble {} = .ok laid
      ∧ generate (.builtIn { pack := false }) { pack := false } .write (lookedUp "OutDecoder").schema "out"
          workplace
          = (.ok ⟨"OutDecoder", .noPack, (lookedUp "OutDecoder").decoders, [⟨"out/index.ts", .written⟩]⟩,
            (workplace.put ["box", "work", "out"] .folder).put ["box", "work", "out", "index.ts"]
              (.file (Text.encode laid.toList)))
      ∧ (lookedUpModule "OutDecoder").TopLevel [] ["OutDecoder"]
      ∧ ¬ ((lookedUpModule "OutDecoder").topLevelNames [] ["OutDecoder"]).Nodup := by
  have hplan : Plan.ofSchema (.builtIn {}) { pack := false } (lookedUp "OutDecoder").schema
      = .ok (lookedUp "OutDecoder") := rfl
  have hblock : (TypeCompiler.builtIn {} .error).block (lookedUp "OutDecoder").definitions {}
      = .ok ("export type " ++ "OutDecoder" ++ " = string;") := rfl
  obtain ⟨laid, hlaid, hrun⟩ := generate_lookedUp hplan hblock (by decide) (by decide)
  exact ⟨laid, hlaid, hrun, Plan.topLevel_moduleNamed hplan hblock "OutDecoder", by decide⟩

end DecoderForge
