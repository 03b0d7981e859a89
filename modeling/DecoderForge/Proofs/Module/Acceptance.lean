import DecoderForge.Proofs.Layout.Acceptance
import DecoderForge.Proofs.Module.Sections
import DecoderForge.Proofs.Plan.Artifacts
import DecoderForge.Proofs.Schema.Identifiers
import DecoderForge.Proofs.Types.Brackets
import DecoderForge.Proofs.Types.References

/-!
# DecoderForge — when the formatter accepts a generated module

A module is a frame around declarations.  The frame is always accepted, and every declaration is level,
so that no declaration can repair another: the module is accepted exactly when each of its declarations
is accepted alone.

## The architecture

* **`format_isOk_iff_settle`** — acceptance of a text that lexes.
* **`Module.format_assemble_isOk_iff`** — of a module only the declarations count.
* **`Plan.format_moduleFor_isOk_iff`** — the declarations of a schema, one by one, and schemas with even
  texts.
-/

namespace DecoderForge

open Layout

namespace Layout

/-- Text that lexes is accepted when its brackets settle. -/
theorem format_isOk_iff_settle {source : String} {w : List Char} (h : Lexes .code source.toList .code w)
    (hlevel : 2 * w.countP isOpener = w.length) (style : Style) :
    (format source style).isOk = true ↔ settle [] w = .ok [] := by
  have hrun : (Reader.fresh .initial).run source.toList = (settle [] w).map LexState.code.reader :=
    run_of_lexes h []
  rw [format_isOk_iff, hrun]
  cases hsettle : settle [] w with
  | error f => simp [Except.map]
  | ok stack =>
      obtain rfl := eq_nil_of_settle hlevel hsettle
      exact ⟨fun _ => rfl, fun _ => ⟨_, rfl, rfl, rfl⟩⟩

end Layout

/-- **Of a module only the declarations count.**  All else is read as code and leaves no bracket open. -/
theorem Module.format_assemble_isOk_iff {m : Module} (hm : m.Ordinary) {w : List Char}
    (h : Lexes .code m.declarations.toList .code w) (hlevel : 2 * w.countP isOpener = w.length)
    (style : Style) : (format m.assemble style).isOk = true ↔ settle [] w = .ok [] := by
  have hindent : ∀ b ∈ (String.ofList m.style.indentUnit).toList, Text.isBlank b = true := by
    rw [String.toList_ofList]
    exact Style.blank_indentUnit m.style
  -- the calls in front of the declarations, the declarations, and the calls behind them
  obtain ⟨text, hassemble⟩ : ∃ text, m.assemble.toList = text := ⟨_, rfl⟩
  have hwritten : Written m.calls text := by
    rw [← hassemble, Module.assemble]
    exact written_render hindent m.calls
  unfold Module.calls at hwritten
  simp only [List.append_assoc] at hwritten
  obtain ⟨before, rest, rfl, hbefore, hrest⟩ := written_append_inv hwritten
  obtain ⟨middle, after, rfl, hmiddle, hafter⟩ := written_append_inv hrest
  have htakes : Takes [] before [] := takes_of_written hbefore (takesAll_importSection hm [])
  have htakes' : Takes [] after [] := by
    have hall := takesAll_afterDeclarations hm []
    simp only [List.append_assoc] at hall
    exact takes_of_written hafter hall
  have hlex : Lexes .code middle .code w := by
    have hnewline : Lexes .code ['\n'] .code [] := rfl
    have hblank : Lexes .code Call.blank.body .code [] := rfl
    unfold declarationSection at hmiddle
    split at hmiddle
    · next hempty =>
        rw [String.isEmpty_iff.mp hempty] at h
        cases hmiddle with
        | nil => exact h
    · cases hmiddle with
      | cons hblanks hmiddle =>
          cases hmiddle with
          | cons hblanks' hnil =>
              cases hnil with
              | nil =>
                  have hbody : Lexes .code (Call.raw m.declarations).body .code w := by
                    unfold Call.body
                    simp only
                    split
                    · exact h
                    · have happend := h.append hnewline
                      rwa [List.append_nil] at happend
                  have htail := ((lexes_blanks (Or.inl rfl) hblanks).append hbody).append
                    (((lexes_blanks (Or.inl rfl) hblanks').append hblank).append (Lexes.nil .code))
                  simpa using htail
  have hrun : (Reader.fresh .initial).run m.assemble.toList
      = (settle [] w).bind fun stack => (LexState.code.reader stack).run after := by
    rw [hassemble]
    show (LexState.code.reader []).run _ = _
    rw [Reader.run_append_ok htakes, Reader.run_append, run_of_lexes hlex]
    cases settle [] w <;> rfl
  rw [format_isOk_iff, hrun]
  cases hsettle : settle [] w with
  | error f => simp [Except.bind]
  | ok stack =>
      obtain rfl := eq_nil_of_settle hlevel hsettle
      exact ⟨fun _ => rfl, fun _ => ⟨_, htakes', rfl, rfl⟩⟩

/-! ## Declarations one by one -/

/-- Level texts with blanks between them are accepted together exactly when each is. -/
theorem exists_lexes_joinWith {sep : List Char} (hsep : ∀ c ∈ sep, Text.isBlank c = true) :
    ∀ {texts : List (List Char)}, (∀ t ∈ texts, Level t) →
      ∃ ws, Lexes .code (Text.joinWith sep texts) .code ws.flatten
        ∧ (∀ w ∈ ws, 2 * w.countP isOpener = w.length)
        ∧ List.Forall₂ (fun t w => Lexes .code t .code w) texts ws
  | [], _ => ⟨[], Lexes.nil _, by simp, .nil⟩
  | [t], h => by
      obtain ⟨w, hlex, hcount⟩ := h t List.mem_cons_self
      exact ⟨[w], by simpa [Text.joinWith] using hlex, by simpa using hcount, .cons hlex .nil⟩
  | t :: u :: rest, h => by
      obtain ⟨w, hlex, hcount⟩ := h t List.mem_cons_self
      obtain ⟨ws, hlexes, hcounts, hall⟩ :=
        exists_lexes_joinWith hsep fun v hv => h v (List.mem_cons_of_mem t hv)
      refine ⟨w :: ws, ?_, List.forall_mem_cons.mpr ⟨hcount, hcounts⟩, .cons hlex hall⟩
      have hjoined := (hlex.append (lexes_blanks (Or.inl rfl) hsep)).append hlexes
      simpa [Text.joinWith] using hjoined

/-- **Level texts joined by blanks are accepted exactly when each of them is.** -/
theorem format_intercalate_isOk_iff {sep : String} (hsep : ∀ c ∈ sep.toList, Text.isBlank c = true)
    {sources : List String} (h : ∀ s ∈ sources, Level s.toList) (style : Style) :
    ∃ w, Lexes .code (String.intercalate sep sources).toList .code w
      ∧ 2 * w.countP isOpener = w.length
      ∧ (settle [] w = .ok [] ↔ ∀ s ∈ sources, (format s style).isOk = true) := by
  have htexts : ∀ t ∈ sources.map String.toList, Level t := List.forall_mem_map.mpr h
  obtain ⟨ws, hlex, hcounts, hall⟩ := exists_lexes_joinWith hsep htexts
  refine ⟨ws.flatten, by rwa [toList_intercalate], ?_, ?_⟩
  · clear hlex hall
    induction ws with
    | nil => rfl
    | cons w ws ih =>
        obtain ⟨hw, hws⟩ := List.forall_mem_cons.mp hcounts
        have hrest := ih hws
        rw [List.flatten_cons, List.countP_append, List.length_append]
        omega
  · rw [settle_flatten_iff hcounts]
    clear hlex htexts
    rw [List.forall₂_map_left_iff] at hall
    induction hall with
    | nil => simp
    | cons hfirst _ ih =>
        obtain ⟨hw, hws⟩ := List.forall_mem_cons.mp hcounts
        rw [List.forall_mem_cons, List.forall_mem_cons, format_isOk_iff_settle hfirst hw style,
          ih (List.forall_mem_cons.mp h).2 hws]

/-! ## Declarations of a schema -/

/-- The definitions of a schema made from definitions. -/
theorem Definitions.ofSchema_toSchema : ∀ d : Definitions, ofSchema d.toSchema = .ok d
  | ⟨_ :: _, _⟩ => rfl

namespace Types

/-- What is declared beside the container comes from a definition. -/
theorem declare_of_mem_compile {naming : Naming} {policy : CollisionPolicy} {style : Style}
    {rootName : String} {schema : Json} {named : List Definition} {ds : List Declaration}
    (hnamed : definitionsOf naming policy schema = .ok named)
    (h : compile naming policy { style } rootName schema = .ok ds) {d : Declaration} (hd : d ∈ ds)
    (hname : d.name ≠ rootName) :
    ∃ definition ∈ named, declare ⟨schema, style, referenceNames named⟩ { style } definition.name
      definition.schema = .ok d := by
  rcases declare_of_mem hnamed h hd with hroot | hdefinition
  · exact absurd (head_of_declare hroot).1 hname
  · exact hdefinition

end Types

namespace Plan

/-- How references of the schema of a plan are read. -/
def scope (p : Plan) (style : Style) : Types.Scope :=
  ⟨p.schema, style, Types.referenceNames (p.planned.map PlannedDecoder.definition)⟩

/-- The module of a plan, named for an output folder. -/
def moduleFor (p : Plan) (o : GenerateOptions) (folder declarations : String) : Module where
  decoderName := o.naming.registryClass folder
  style := o.style
  schema := p.schema
  engineOptions := o.validator.engineOptions
  imports := p.imports o.style
  declarations
  entries := p.decoders

/-- The definitions of a plan are those of its schema, with the identifiers given out to them. -/
theorem enumerate_of_ofSchema {compiler : ValidatorCompiler} {o : GenerateOptions} {schema : Json}
    {p : Plan} (h : ofSchema compiler o schema = .ok p) :
    p.definitions.enumerate o.naming o.collision = .ok (p.planned.map PlannedDecoder.definition) := by
  obtain ⟨ds, -, hnamed, hplanned⟩ := ofSchema_eq_ok_iff.mp h
  rw [hplanned, List.map_map, hnamed]
  exact congrArg Except.ok (List.map_id ds).symm

/-- The definitions that the type compiler sees are those of the plan. -/
theorem definitionsOf_schema {compiler : ValidatorCompiler} {o : GenerateOptions} {schema : Json}
    {p : Plan} (h : ofSchema compiler o schema = .ok p) :
    Types.definitionsOf o.naming o.collision p.schema
      = .ok (p.planned.map PlannedDecoder.definition) := by
  unfold Types.definitionsOf
  rw [Plan.schema, Definitions.ofSchema_toSchema]
  simp only
  rw [enumerate_of_ofSchema h]
  rfl

/-- Every name in the module of a plan is plain. -/
theorem ordinary_moduleFor {compiler : ValidatorCompiler} {o : GenerateOptions} {schema : Json} {p : Plan}
    (h : ofSchema compiler o schema = .ok p) (folder declarations : String) :
    (p.moduleFor o folder declarations).Ordinary := by
  have hplain : ∀ d ∈ p.planned, ∀ c ∈ d.definition.name.toList, isPlain c = true := fun d hd =>
    Definitions.plain_of_enumerate (enumerate_of_ofSchema h) d.definition (List.mem_map_of_mem hd)
  have hidents : ∀ d ∈ p.planned, ∀ c ∈ (validatorIdent d.definition.name).toList, isPlain c = true := by
    intro d hd
    unfold validatorIdent
    rw [String.toList_append]
    exact List.forall_mem_append.mpr ⟨hplain d hd, by decide⟩
  refine ⟨Naming.plain_registryClass o.naming folder, ?_, ?_, ?_⟩
  · intro s hs
    obtain ⟨d, hd, hline⟩ := List.mem_filterMap.mp hs
    obtain ⟨_, -, rfl⟩ := Option.map_eq_some_iff.mp hline
    simp only [String.toList_append]
    exact ((((closed_of_plain (by decide)).append (closed_of_plain (hidents d hd))).append
      (closed_of_plain (by decide))).append (quiet_styleQuote o.style _).closed).append
      (closed_of_plain (by decide))
  · intro e he
    obtain ⟨d, hd, rfl⟩ := List.mem_map.mp he
    unfold PlannedDecoder.entry
    split <;> exact hplain d hd
  · intro e he i hi
    obtain ⟨d, hd, rfl⟩ := List.mem_map.mp he
    unfold PlannedDecoder.entry at hi
    split at hi
    · obtain rfl := Strategy.precompiled.inj hi
      exact hidents d hd
    · exact absurd hi (by simp [DecoderEntry.pointerLookup])

/-- A schema from which the type of some definition is made, the definition itself left out of account
unless its type is made from it again. -/
def ReadsBelow (p : Plan) (style : Style) (t : Json) : Prop :=
  ∃ e ∈ p.definitions.entries, Relation.TransGen (p.scope style).Reads e.2 t

/-- Reading stays inside the schema of the plan. -/
theorem inside_of_readsBelow {p : Plan} {style : Style} {t : Json} (h : p.ReadsBelow style t) :
    t = p.schema ∨ Json.Inside t p.schema := by
  obtain ⟨e, he, hreads⟩ := h
  have hentry : Json.Inside e.2 p.schema := .trans (.member he) (.member (List.mem_singleton.mpr rfl))
  induction hreads with
  | single h => exact Types.Scope.Reads.inside (Or.inr hentry) h
  | tail _ h ih => exact Types.Scope.Reads.inside ih h

/-- Where no text of the definitions is the name of a type hint, there is no hint below them. -/
theorem hint_eq_none_of_texts {p : Plan} {style : Style} (h : typeHintKey ∉ p.schema.texts) {t : Json}
    (ht : p.ReadsBelow style t) : t.getString? typeHintKey = none := by
  refine Json.getString?_eq_none fun hmem => h ?_
  rcases inside_of_readsBelow ht with rfl | hinside
  · exact hmem
  · exact hinside.texts_subset hmem

/-- What the declarations of a plan are made of, over any vocabulary that admits its texts and hints. -/
theorem source_of_declared {c : ValidatorCompiler} {o : GenerateOptions} {schema : Json} {p : Plan}
    (hplan : ofSchema c o schema = .ok p) {Allowed : String → Prop} {Word : List Char → Prop}
    {Head : Types.MemberHead → Prop} (V : Types.Vocabulary o.style Allowed Word Head)
    (hallowed : ∀ s ∈ p.schema.texts, Allowed s)
    (hhints : ∀ t, p.ReadsBelow o.style t → ∀ h, t.getString? typeHintKey = some h → Word h.toList)
    {P : List Char → Prop} (C : Types.Composes P)
    (hrender : ∀ e, Types.Built Word Head e → P (e.render o.style))
    (hdoc : ∀ schema, P (Types.docText (Types.docLines? schema)))
    {ds : List Types.Declaration} {rootName : String}
    (hds : Types.compile o.naming o.collision { style := o.style } rootName p.schema = .ok ds)
    {d : Types.Declaration} (hd : d ∈ ds) (hname : d.name ≠ rootName) :
    P (d.source o.style).toList := by
  obtain ⟨definition, hdefinition, hdeclare⟩ :=
    Types.declare_of_mem_compile (definitionsOf_schema hplan) hds hd hname
  have hplain := Definitions.plain_of_enumerate (enumerate_of_ofSchema hplan)
  have hentry : (definition.key, definition.schema) ∈ p.definitions.entries := by
    rw [← Definitions.entries_of_enumerate (enumerate_of_ofSchema hplan)]
    exact List.mem_map_of_mem hdefinition
  have hnames : ∀ r name, (p.scope o.style).names.lookup r = some name →
      ∀ c ∈ name.toList, isPlain c = true := by
    intro r name hlookup
    obtain ⟨d', hd', -, rfl⟩ := Types.mem_referenceNames.mp (Types.mem_of_lookup hlookup)
    exact hplain d' hd'
  have D : (p.scope o.style).Domain Allowed Word (p.ReadsBelow o.style) :=
    { step := fun ⟨e, he, hs⟩ h => ⟨e, he, hs.tail h⟩
      admits := fun hs => Types.Admits.of_texts hallowed (inside_of_readsBelow hs)
      hint := fun hs => hhints _ hs }
  have hadmits : Types.Admits Allowed definition.schema :=
    Types.Admits.of_texts hallowed (Or.inr (.trans (.member hentry) (.member (List.mem_singleton.mpr rfl))))
  obtain ⟨hname', hdoc', hbody⟩ := V.built_declare D hnames rfl hadmits
    (fun t ht => ⟨_, hentry, .single ht⟩) hdeclare
  refine C.source hrender ?_ ?_ hbody
  · rw [hdoc']
    exact hdoc definition.schema
  · rw [hname']
    exact hplain definition hdefinition

/-- The declarations of a schema that are written. -/
theorem block_eq_ok {o : GenerateOptions} {definitions : Definitions} {text : String}
    (h : (TypeCompiler.builtIn o.naming o.collision).block definitions o.style = .ok text) :
    ∃ ds, Types.compile o.naming o.collision { style := o.style } TypeCompiler.containerName
        definitions.toSchema = .ok ds
      ∧ text = String.intercalate "\n\n"
          ((ds.filter fun d => d.name != TypeCompiler.containerName).map (·.source o.style)) := by
  unfold TypeCompiler.block TypeCompiler.builtIn at h
  simp only at h
  cases hds : Types.compile o.naming o.collision { style := o.style } TypeCompiler.containerName
      definitions.toSchema with
  | error f => rw [hds] at h; exact absurd h (by simp)
  | ok ds =>
      rw [hds] at h
      obtain rfl := Except.ok.inj h
      refine ⟨ds, rfl, ?_⟩
      rw [List.filter_map, List.map_map]
      rfl

/-- **A module is accepted exactly when each of its declarations is accepted alone.**  Type hints copied into
it from below the definitions have to be level themselves.  Without such hints the module is accepted in
any case if every text of the definitions has as many opening as closing parentheses. -/
theorem format_moduleFor_isOk_iff {c : ValidatorCompiler} {o : GenerateOptions} {schema : Json} {p : Plan}
    (hplan : ofSchema c o schema = .ok p) {text : String}
    (hblock : (TypeCompiler.builtIn o.naming o.collision).block p.definitions o.style = .ok text)
    (hhints : ∀ t, p.ReadsBelow o.style t → ∀ h, t.getString? typeHintKey = some h → Level h.toList)
    (folder : String) :
    (∀ ds, Types.compile o.naming o.collision { style := o.style } TypeCompiler.containerName p.schema
        = .ok ds →
      ((format (p.moduleFor o folder text).assemble o.style).isOk = true
        ↔ ∀ d ∈ ds, d.name ≠ TypeCompiler.containerName →
          (format (d.source o.style) o.style).isOk = true))
    ∧ ((∀ t, p.ReadsBelow o.style t → t.getString? typeHintKey = none) →
        (∀ s ∈ p.schema.texts, Types.Even s.toList) →
        (format (p.moduleFor o folder text).assemble o.style).isOk = true) := by
  obtain ⟨ds, hds, htext⟩ := block_eq_ok hblock
  have hwritten : ∀ {d}, d ∈ ds.filter (fun d => d.name != TypeCompiler.containerName) →
      d ∈ ds ∧ d.name ≠ TypeCompiler.containerName := by
    intro d hd
    obtain ⟨hmem, hname⟩ := List.mem_filter.mp hd
    exact ⟨hmem, by simpa using hname⟩
  have hlevel : ∀ s ∈ (ds.filter fun d => d.name != TypeCompiler.containerName).map (·.source o.style),
      Level s.toList := by
    intro s hs
    obtain ⟨d, hd, rfl⟩ := List.mem_map.mp hs
    exact source_of_declared hplan (Types.levelVocabulary o.style) (fun _ _ => trivial) hhints
      Types.composes_level (fun e => Types.level_render o.style)
      (fun schema => (Types.quiet_docText_docLines? schema).level) hds (hwritten hd).1 (hwritten hd).2
  obtain ⟨w, hlex, hcount, hsettle⟩ :=
    format_intercalate_isOk_iff (by decide : ∀ c ∈ "\n\n".toList, Text.isBlank c = true) hlevel o.style
  rw [← htext] at hlex
  have hmodule :=
    Module.format_assemble_isOk_iff (ordinary_moduleFor hplan folder text) hlex hcount o.style
  refine ⟨fun ds' hds' => ?_, fun hnone heven => ?_⟩
  · obtain rfl : ds = ds' := Except.ok.inj (hds.symm.trans hds')
    rw [hmodule, hsettle, List.forall_mem_map]
    constructor
    · intro h d hd hname
      exact h d (List.mem_filter.mpr ⟨hd, by simpa using hname⟩)
    · intro h d hd
      exact h d (hwritten hd).1 (hwritten hd).2
  · rw [hmodule, hsettle, List.forall_mem_map]
    intro d hd
    have hclosed : Closed (d.source o.style).toList := by
      refine source_of_declared hplan (Types.closedVocabulary o.style) heven (fun t ht h hhint => ?_)
        Types.composes_closed (fun e => Types.closed_render o.style)
        (fun schema => (Types.quiet_docText_docLines? schema).closed) hds (hwritten hd).1 (hwritten hd).2
      rw [hnone t ht] at hhint
      exact absurd hhint (by simp)
    obtain ⟨w', hlex', hsettle'⟩ := hclosed
    have hlength := length_of_settle (hsettle' [])
    exact (format_isOk_iff_settle hlex' (by omega) o.style).mpr (hsettle' [])

end Plan

end DecoderForge
