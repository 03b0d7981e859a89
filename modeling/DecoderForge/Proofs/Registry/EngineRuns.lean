import DecoderForge.Proofs.Registry.Answers

/-!
# DecoderForge — when the engine of a registry starts

A registry passes on to its engine the pointers of those decoders that it is asked to decode with and that
have no validator of their own.  So its engine is in the state of an engine that was asked for these
pointers one after another, and it has started if there was one.

## The architecture

* **`LazyEngine.Tracks`** — the state of an engine by what was demanded of it, kept by every demand.
* **`LazyEngine.Tracks.validatorAll`** — a run of demands.
* **`Registry.afterAll_eq`** — a run of calls is a run of demands for the engine.
* **`Registry.usesPointerLookup?_of_mem`** — the planned strategy is the one that is used.
* **`Registry.engine_starts_on_demand`** — engine, registry and plan together.
-/

namespace DecoderForge

/-! ## The engine -/

namespace LazyEngine

/-- The validators for pointers demanded one after another, and the engine afterwards. -/
def validatorAll (e : LazyEngine) : List String → List (Option BoundValidator) × LazyEngine
  | [] => ([], e)
  | pointer :: rest =>
    let (b, e) := e.validator pointer
    let (more, e) := e.validatorAll rest
    (b :: more, e)

/-- What an engine is like after some demands: it keeps an outcome for each of them, and it has started
if there were any. -/
structure Tracks (schema : Json) (o : ValidatorOptions) (demands : List String) (e : LazyEngine) : Prop where
  schema_eq : e.schema = schema
  options_eq : e.options = o
  coherent : e.Coherent
  bound : ∀ pointer, (e.bound.lookup pointer).isSome = true ↔ pointer ∈ demands
  started : e.isStarted = true ↔ demands ≠ []

variable {schema : Json} {o : ValidatorOptions} {demands : List String} {e : LazyEngine}

theorem tracks_new (schema : Json) (o : ValidatorOptions) : Tracks schema o [] { schema, options := o } :=
  ⟨rfl, rfl, coherent_new schema o, by simp, by simp⟩

/-- **One demand.**  An outcome that is kept was demanded before, so that the engine has started by then. -/
theorem Tracks.validator (h : e.Tracks schema o demands) (pointer : String) :
    (e.validator pointer).2.Tracks schema o (demands ++ [pointer]) := by
  refine ⟨(schema_validator e pointer).trans h.schema_eq, (options_validator e pointer).trans h.options_eq,
    h.coherent.validator pointer, fun other => ?_, ?_⟩
  all_goals
    unfold LazyEngine.validator
    cases hknown : e.bound.lookup pointer with
    | some known => ?_
    | none => ?_
  · have hdemanded : pointer ∈ demands := (h.bound pointer).mp (by rw [hknown]; rfl)
    rw [List.mem_append, List.mem_singleton, ← h.bound other]
    refine ⟨Or.inl, fun hother => hother.elim id ?_⟩
    rintro rfl
    rw [hknown]
    rfl
  · simp only [List.lookup_cons, List.mem_append, List.mem_singleton]
    by_cases heq : other = pointer
    · simp [heq]
    · rw [beq_false_of_ne heq, h.bound other]
      simp [heq]
  · have hdemanded : pointer ∈ demands := (h.bound pointer).mp (by rw [hknown]; rfl)
    simpa using h.started.mpr (List.ne_nil_of_mem hdemanded)
  · simp

/-- **A run of demands** gives what binding gives. -/
theorem Tracks.validatorAll : ∀ {demands : List String} {e : LazyEngine}, e.Tracks schema o demands →
    ∀ pointers : List String,
      (e.validatorAll pointers).1 = pointers.map ((ValidatorCompiler.builtIn o).bind schema)
        ∧ (e.validatorAll pointers).2.Tracks schema o (demands ++ pointers)
  | demands, e, h, [] => ⟨rfl, by rwa [List.append_nil]⟩
  | demands, e, h, pointer :: rest => by
      obtain ⟨hanswers, htracks⟩ := Tracks.validatorAll (h.validator pointer) rest
      constructor
      · rw [List.map_cons, ← hanswers, ← h.schema_eq, ← h.options_eq, ← validator_eq h.coherent]
        rfl
      · rw [List.append_assoc] at htracks
        exact htracks

theorem validatorAll_append : ∀ (first second : List String) (e : LazyEngine),
    (e.validatorAll (first ++ second)).2 = ((e.validatorAll first).2.validatorAll second).2
  | [], _, _ => rfl
  | pointer :: rest, second, e => validatorAll_append rest second (e.validator pointer).2

end LazyEngine

namespace Registry

/-! ## Runs of calls -/

/-- A call of a registry. -/
inductive Call : Type 1 where
  | decode (name : String) (v : Json)
  | decodeAs {α : Type} (convert : Conversion α) (name : String) (v : Json)
  | names
  | contains (name : String)
  | usesPointerLookup (name : String)

/-- The name of the decoder that a call decodes with. -/
def Call.decodes? : Call → Option String
  | .decode name _ => some name
  | .decodeAs _ name _ => some name
  | _ => none

/-- The registry after a call; only decoding can change it. -/
def after (r : Registry) : Call → Registry
  | .decode name v => (r.decode name v).2
  | .decodeAs convert name v => (r.decodeAs convert name v).2
  | _ => r

/-- The registry after calls. -/
def afterAll (r : Registry) (calls : List Call) : Registry := calls.foldl after r

/-- The pointer that decoding with a name asks the engine for. -/
def pointer? (r : Registry) (name : String) : Option String :=
  (r.entry? name).bind fun e =>
    match e.source with
    | .pointerLookup pointer => some pointer
    | .precompiled _ => none

/-- The pointer that a call asks the engine for. -/
def demand? (r : Registry) (c : Call) : Option String := c.decodes?.bind r.pointer?

/-- The engine is asked for by the decoders that look up their validators. -/
theorem pointer?_isSome_iff (r : Registry) (name : String) :
    (r.pointer? name).isSome = true ↔ r.usesPointerLookup? name = some true := by
  unfold pointer? usesPointerLookup?
  cases r.entry? name with
  | none => simp
  | some e =>
      cases hsource : e.source <;> simp [hsource]

/-- What a registry is asked for does not depend on its engine. -/
theorem demand?_engine (r : Registry) (engine : LazyEngine) (c : Call) :
    demand? { r with engine } c = r.demand? c := rfl

theorem decode_eq (r : Registry) (name : String) (v : Json) :
    (r.decode name v).2 = { r with engine := (r.engine.validatorAll (r.pointer? name).toList).2 } := by
  unfold decode pointer?
  cases r.entry? name with
  | none => rfl
  | some e =>
      unfold validatorOf
      cases hsource : e.source <;> simp [hsource, LazyEngine.validatorAll]

/-- **One call** is at most one demand for the engine. -/
theorem after_eq (r : Registry) (c : Call) :
    r.after c = { r with engine := (r.engine.validatorAll (r.demand? c).toList).2 } := by
  cases c with
  | decode name v => exact r.decode_eq name v
  | decodeAs convert name v => exact r.decode_eq name v
  | names => rfl
  | contains name => rfl
  | usesPointerLookup name => rfl

/-- **A run of calls** is a run of demands for the engine. -/
theorem afterAll_eq : ∀ (calls : List Call) (r : Registry),
    r.afterAll calls = { r with engine := (r.engine.validatorAll (calls.filterMap r.demand?)).2 }
  | [], r => rfl
  | c :: rest, r => by
      have hrest := afterAll_eq rest (r.after c)
      have hdemands : rest.filterMap (r.after c).demand? = rest.filterMap r.demand? := by
        rw [after_eq]
        exact List.filterMap_congr fun c' _ => demand?_engine r _ c'
      have hall : (c :: rest).filterMap r.demand? = (r.demand? c).toList ++ rest.filterMap r.demand? := by
        rw [List.filterMap_cons]
        cases r.demand? c <;> rfl
      rw [hdemands] at hrest
      rw [hall, LazyEngine.validatorAll_append]
      refine hrest.trans ?_
      rw [after_eq]

/-- Whether decoders look up their validators never changes. -/
theorem usesPointerLookup?_afterAll (r : Registry) (calls : List Call) :
    (r.afterAll calls).usesPointerLookup? = r.usesPointerLookup? := by
  rw [afterAll_eq]
  rfl

/-- Something is demanded by a call that decodes with a decoder that looks up its validator. -/
theorem demands_ne_nil_iff (r : Registry) (calls : List Call) :
    calls.filterMap r.demand? ≠ [] ↔
      ∃ c ∈ calls, ∃ name, c.decodes? = some name ∧ r.usesPointerLookup? name = some true := by
  constructor
  · intro h
    obtain ⟨pointer, hpointer⟩ := List.exists_mem_of_ne_nil _ h
    obtain ⟨c, hc, hdemand⟩ := List.mem_filterMap.mp hpointer
    obtain ⟨name, hname, hasked⟩ := Option.bind_eq_some_iff.mp hdemand
    exact ⟨c, hc, name, hname, (r.pointer?_isSome_iff name).mp (by rw [hasked]; rfl)⟩
  · rintro ⟨c, hc, name, hname, huses⟩
    obtain ⟨pointer, hpointer⟩ := Option.isSome_iff_exists.mp ((r.pointer?_isSome_iff name).mpr huses)
    have hdemand : r.demand? c = some pointer := Option.bind_eq_some_iff.mpr ⟨name, hname, hpointer⟩
    exact List.ne_nil_of_mem (List.mem_filterMap.mpr ⟨c, hc, hdemand⟩)

/-! ## The strategies of a plan -/

@[simp] theorem name_bindEntry (compiler : ValidatorCompiler) (schema : Json) (e : DecoderEntry) :
    (bindEntry compiler schema e).name = e.name := by
  unfold bindEntry
  split
  · rfl
  · split <;> rfl

/-- Of decoders with different names each is found by its own. -/
theorem ofEntries_entry {name : String} {schema : Json} {entries : List DecoderEntry} {o : ValidatorOptions}
    (hnodup : (entries.map DecoderEntry.name).Nodup) {e : DecoderEntry} (he : e ∈ entries) :
    entry? (ofEntries name schema entries o) e.name
      = some (bindEntry (ValidatorCompiler.builtIn o) schema e) := by
  unfold entry? ofEntries
  rw [← List.map_reverse, List.find?_map]
  have hsome : (entries.reverse.find? fun e' => e'.name == e.name).isSome = true :=
    List.find?_isSome.mpr ⟨e, List.mem_reverse.mpr he, by simp⟩
  obtain ⟨e', hfound⟩ := Option.isSome_iff_exists.mp hsome
  have hsame : e' = e := by
    refine List.inj_on_of_nodup_map hnodup (List.mem_reverse.mp (List.mem_of_find?_eq_some hfound)) he ?_
    simpa using List.find?_some hfound
  have hpredicate : ((fun e' : RegistryEntry => e'.name == e.name)
      ∘ bindEntry (ValidatorCompiler.builtIn o) schema) = fun e' => e'.name == e.name :=
    funext fun e' => by simp
  rw [hpredicate, hfound, hsame]
  rfl

/-- **The planned strategy is the one that is used**: a validator that was compiled ahead can be bound. -/
theorem usesPointerLookup?_of_mem {o : GenerateOptions} {schema : Json} {p : Plan}
    (h : Plan.ofSchema (.builtIn o.validator) o schema = .ok p) {name : String} {e : DecoderEntry}
    (he : e ∈ p.decoders) :
    (ofEntries name p.schema p.decoders o.validator).usesPointerLookup? e.name = some e.isPointerLookup := by
  obtain ⟨ds, -, -, hplanned⟩ := Plan.ofSchema_eq_ok_iff.mp h
  obtain ⟨d, hd, rfl⟩ := List.mem_map.mp he
  have hsource : d.source = Plan.sourceOf? (.builtIn o.validator) o.mode p.schema d.definition := by
    rw [hplanned] at hd
    obtain ⟨_, -, rfl⟩ := List.mem_map.mp hd
    rfl
  unfold usesPointerLookup?
  rw [ofEntries_entry (Plan.nodup_names h) he, PlannedDecoder.isPointerLookup_entry, Option.map_some]
  unfold bindEntry
  rw [Plan.strategy_entry]
  cases hmodule : d.source with
  | none => rfl
  | some text =>
      obtain ⟨-, b, hbind, -⟩ := Plan.sourceOf?_eq_some_iff.mp (hsource.symm.trans hmodule)
      have hpointer : d.entry.pointer = d.definition.pointer := by
        rw [DecoderEntry.pointer, PlannedDecoder.key_entry]
        rfl
      simp only [hpointer, hbind]
      rfl

/-- A name that no decoder has uses nothing. -/
theorem usesPointerLookup?_of_notMem {name other : String} {schema : Json} {entries : List DecoderEntry}
    {o : ValidatorOptions} (h : other ∉ entries.map DecoderEntry.name) :
    (ofEntries name schema entries o).usesPointerLookup? other = none := by
  unfold usesPointerLookup? entry? ofEntries
  rw [Option.map_eq_none_iff, List.find?_eq_none]
  intro e he
  obtain ⟨e', he', rfl⟩ := List.mem_map.mp (List.mem_reverse.mp he)
  rw [name_bindEntry, beq_iff_eq]
  rintro rfl
  exact h (List.mem_map_of_mem he')

/-! ## Engine, registry and plan -/

/-- **The engine starts on demand.**  An engine answers every run of demands as binding anew would, and has
started if there was a demand.  The engine of a registry has started after a run of calls if one of them
decoded with a decoder that looks up its validator, and which decoders do that never changes.  In the
registry for a schema they are those for which the plan says so. -/
theorem engine_starts_on_demand :
    (∀ (schema : Json) (o : ValidatorOptions) (pointers : List String),
        (LazyEngine.validatorAll { schema, options := o } pointers).1
            = pointers.map ((ValidatorCompiler.builtIn o).bind schema)
          ∧ ((LazyEngine.validatorAll { schema, options := o } pointers).2.isStarted = true
            ↔ pointers ≠ []))
      ∧ (∀ (name : String) (schema : Json) (entries : List DecoderEntry) (o : ValidatorOptions)
          (calls : List Call),
          (((ofEntries name schema entries o).afterAll calls).engine.isStarted = true
              ↔ ∃ c ∈ calls, ∃ decoder, c.decodes? = some decoder
                ∧ (ofEntries name schema entries o).usesPointerLookup? decoder = some true)
            ∧ ((ofEntries name schema entries o).afterAll calls).usesPointerLookup?
              = (ofEntries name schema entries o).usesPointerLookup?)
      ∧ ∀ (o : GenerateOptions) (schema : Json) (r : Registry), ofSchema o schema = .ok r →
          ∃ p, Plan.ofSchema (.builtIn o.validator) o schema = .ok p
            ∧ r = ofEntries (o.decoderName.getD defaultName) p.schema p.decoders o.validator
            ∧ (∀ e ∈ p.decoders, r.usesPointerLookup? e.name = some e.isPointerLookup)
            ∧ ∀ name, name ∉ p.decoders.map DecoderEntry.name → r.usesPointerLookup? name = none := by
  have hengine (schema : Json) (o : ValidatorOptions) (pointers : List String) :=
    (LazyEngine.tracks_new schema o).validatorAll pointers
  refine ⟨fun schema o pointers => ⟨(hengine schema o pointers).1, (hengine schema o pointers).2.started⟩,
    fun name schema entries o calls => ⟨?_, usesPointerLookup?_afterAll _ calls⟩, fun o schema r hr => ?_⟩
  · rw [← demands_ne_nil_iff, afterAll_eq]
    exact (hengine schema o _).2.started
  · obtain ⟨p, hplan, rfl⟩ := ofSchema_eq_ok_iff.mp hr
    exact ⟨p, hplan, rfl, fun e he => usesPointerLookup?_of_mem hplan he,
      fun name hname => usesPointerLookup?_of_notMem hname⟩

/-- The plan for two definitions where no validators are compiled ahead. -/
def pairPlan : Plan :=
  ⟨⟨[("foo", .obj [("type", .str "string")]), ("bar", .obj [("$ref", .str "#")])], by simp⟩,
    [⟨⟨"foo", "Foo", .obj [("type", .str "string")]⟩, none⟩,
      ⟨⟨"bar", "Bar", .obj [("$ref", .str "#")]⟩, none⟩]⟩

/-- Asking for names and decoding with a name that is not there leaves the engine alone, decoding with one
that is there starts it; so it is in the registry for the schema. -/
theorem engine_starts_on_demand_pair :
    ∃ r, ofSchema { pack := false } pairSchema = .ok r
      ∧ r.usesPointerLookup? "Foo" = some true ∧ r.usesPointerLookup? "foo" = none
      ∧ (r.afterAll [.names, .contains "Foo", .decode "foo" .null]).engine.isStarted = false
      ∧ (r.afterAll [.usesPointerLookup "Foo", .decodeAs Conversion.string "Foo" (.str "a")]).engine.isStarted
        = true := by
  obtain ⟨-, hregistry, hschema⟩ := engine_starts_on_demand
  have hplanned : Plan.ofSchema (.builtIn {}) { pack := false } pairSchema = .ok pairPlan := rfl
  obtain ⟨r, hr⟩ : ∃ r, ofSchema { pack := false } pairSchema = .ok r :=
    ⟨_, ofSchema_eq_ok_iff.mpr ⟨pairPlan, hplanned, rfl⟩⟩
  obtain ⟨p, hplan, rfl, huses, hunknown⟩ := hschema _ _ _ hr
  obtain rfl : pairPlan = p := Except.ok.inj (hplanned.symm.trans hplan)
  have hfoo := huses (DecoderEntry.pointerLookup ⟨"foo", "Foo", .obj [("type", .str "string")]⟩)
    List.mem_cons_self
  have hnone := hunknown "foo" (by decide)
  refine ⟨_, hr, hfoo, hnone, ?_, ?_⟩
  · rw [← Bool.not_eq_true, (hregistry _ _ _ _ _).1]
    rintro ⟨c, hc, decoder, hdecodes, hlookup⟩
    simp only [List.mem_cons, List.not_mem_nil, or_false] at hc
    rcases hc with rfl | rfl | rfl
    · exact absurd hdecodes (by simp [Call.decodes?])
    · exact absurd hdecodes (by simp [Call.decodes?])
    · obtain rfl : "foo" = decoder := Option.some.inj hdecodes
      exact absurd (hnone.symm.trans hlookup) (by simp)
  · exact (hregistry _ _ _ _ _).1.mpr ⟨_, List.mem_cons_of_mem _ List.mem_cons_self, "Foo", rfl, hfoo⟩

end Registry

end DecoderForge
