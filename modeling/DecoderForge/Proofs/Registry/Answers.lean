import DecoderForge.Proofs.Plan.Artifacts
import DecoderForge.Registry.Basic

/-!
# DecoderForge — what a registry answers

A registry keeps a validator with some decoders and asks the engine for those of the others; the engine keeps
what it bound.  Neither shows: an answer is that of the validator which the reduced schema has for the
definition, whatever was decoded before and wherever the validator comes from.

## The architecture

* **`LazyEngine.Coherent`** — what the engine keeps is what binding gives.
* **`Registry.Serves`** — the state of a registry for some definitions, kept by every call.
* **`Registry.Serves.decodeAll`** — the run: every answer is that of the definition.
* **`Registry.answers_of_ofSchema`** — the answers of the registry for a schema.
-/

namespace DecoderForge

/-! ## The engine -/

namespace LazyEngine

/-- What the engine keeps is what binding gives. -/
def Coherent (e : LazyEngine) : Prop :=
  ∀ pointer known, e.bound.lookup pointer = some known →
    known = (ValidatorCompiler.builtIn e.options).bind e.schema pointer

theorem coherent_new (schema : Json) (o : ValidatorOptions) : Coherent { schema, options := o } := by
  intro pointer known h
  exact absurd h (by simp)

/-- **The engine gives what binding gives**, from its store or anew. -/
theorem validator_eq {e : LazyEngine} (h : e.Coherent) (pointer : String) :
    (e.validator pointer).1 = (ValidatorCompiler.builtIn e.options).bind e.schema pointer := by
  unfold validator
  cases hknown : e.bound.lookup pointer with
  | none => rfl
  | some known => exact h pointer known hknown

@[simp] theorem schema_validator (e : LazyEngine) (pointer : String) :
    (e.validator pointer).2.schema = e.schema := by
  unfold validator
  split <;> rfl

@[simp] theorem options_validator (e : LazyEngine) (pointer : String) :
    (e.validator pointer).2.options = e.options := by
  unfold validator
  split <;> rfl

/-- What is kept after a demand is what binding gives. -/
theorem Coherent.validator {e : LazyEngine} (h : e.Coherent) (pointer : String) :
    (e.validator pointer).2.Coherent := by
  unfold LazyEngine.validator
  cases hknown : e.bound.lookup pointer with
  | some known => exact h
  | none =>
      intro other known hother
      simp only [List.lookup_cons] at hother
      split at hother
      · next heq =>
        obtain rfl := beq_iff_eq.mp heq
        exact (Option.some.inj hother).symm
      · exact h other known hother

end LazyEngine

/-! ## One decoder -/

/-- A decoder of a registry that validates by what binding gives for a definition. -/
def RegistryEntry.Serves (compiler : ValidatorCompiler) (schema : Json) (e : RegistryEntry)
    (d : Definition) : Prop :=
  e.name = d.name ∧
    match e.source with
    | .precompiled b => compiler.bind schema d.pointer = some b
    | .pointerLookup pointer => pointer = d.pointer

namespace Registry

/-- A decoder that is planned for a definition serves it, also where it falls back to the engine. -/
theorem serves_bindEntry (compiler : ValidatorCompiler) (schema : Json) (p : PlannedDecoder) :
    (bindEntry compiler schema p.entry).Serves compiler schema p.definition := by
  have hpointer : p.entry.pointer = p.definition.pointer := by
    rw [DecoderEntry.pointer, PlannedDecoder.key_entry]
    rfl
  unfold bindEntry
  rw [hpointer, PlannedDecoder.name_entry, Plan.strategy_entry]
  cases p.source with
  | none => exact ⟨rfl, rfl⟩
  | some text =>
      simp only
      split
      · next b hbind => exact ⟨rfl, hbind⟩
      · exact ⟨rfl, rfl⟩

/-- The decoders of a plan serve its definitions. -/
theorem forall₂_bindEntry (compiler : ValidatorCompiler) (schema : Json) :
    ∀ planned : List PlannedDecoder, List.Forall₂ (RegistryEntry.Serves compiler schema)
      ((planned.map PlannedDecoder.entry).map (bindEntry compiler schema))
      (planned.map PlannedDecoder.definition)
  | [] => .nil
  | p :: rest => .cons (serves_bindEntry compiler schema p) (forall₂_bindEntry compiler schema rest)

/-! ## One call -/

/-- A registry whose decoders serve some definitions, and whose engine keeps what binding gives. -/
structure Serves (o : ValidatorOptions) (schema : Json) (ds : List Definition) (r : Registry) : Prop where
  entries : List.Forall₂ (RegistryEntry.Serves (.builtIn o) schema) r.entries ds
  schema_eq : r.engine.schema = schema
  options_eq : r.engine.options = o
  coherent : r.engine.Coherent

variable {o : ValidatorOptions} {schema : Json} {ds : List Definition} {r : Registry}

theorem Serves.names_eq (h : r.Serves o schema ds) : r.names = ds.map Definition.name := by
  have hnames {es : List RegistryEntry} {ds : List Definition}
      (h : List.Forall₂ (RegistryEntry.Serves (.builtIn o) schema) es ds) :
      es.map RegistryEntry.name = ds.map Definition.name := by
    induction h with
    | nil => rfl
    | cons hd _ ih => rw [List.map_cons, List.map_cons, hd.1, ih]
  exact hnames h.entries

/-- The definition of a name; of several the last. -/
def definition? (ds : List Definition) (name : String) : Option Definition :=
  ds.reverse.find? fun d => d.name == name

/-- The answer of a definition to a value, and the refusal of a name that none has. -/
def answer (o : ValidatorOptions) (schema : Json) (ds : List Definition) (registry name : String) (v : Json) :
    Except DecodeError Json :=
  match definition? ds name with
  | none => .error ⟨.unknownDecoder registry name, v⟩
  | some d => check d.name ((ValidatorCompiler.builtIn o).bind schema d.pointer) v

theorem definition?_of_mem (hnodup : (ds.map Definition.name).Nodup) {d : Definition} (hd : d ∈ ds) :
    definition? ds d.name = some d := by
  have hsome : (definition? ds d.name).isSome = true :=
    List.find?_isSome.mpr ⟨d, List.mem_reverse.mpr hd, by simp⟩
  obtain ⟨d', hd'⟩ := Option.isSome_iff_exists.mp hsome
  have hmem : d' ∈ ds := List.mem_reverse.mp (List.mem_of_find?_eq_some hd')
  have hname : d'.name = d.name := by simpa using List.find?_some hd'
  rw [hd', List.inj_on_of_nodup_map hnodup hmem hd hname]

theorem definition?_eq_none_iff {name : String} :
    definition? ds name = none ↔ name ∉ ds.map Definition.name := by
  unfold definition?
  rw [List.find?_eq_none]
  simp

/-- Of lists that correspond the first of a name correspond. -/
theorem rel_find? {compiler : ValidatorCompiler} {es : List RegistryEntry} {ds : List Definition}
    (h : List.Forall₂ (RegistryEntry.Serves compiler schema) es ds) (name : String) :
    Option.Rel (RegistryEntry.Serves compiler schema) (es.find? fun e => e.name == name)
      (ds.find? fun d => d.name == name) := by
  induction h with
  | nil => exact .none
  | @cons e d es ds hserves _ ih =>
      rw [List.find?_cons, List.find?_cons, hserves.1]
      cases d.name == name with
      | true => exact .some hserves
      | false => exact ih

/-- The decoder of a name serves the definition of that name. -/
theorem Serves.rel_entry? (h : r.Serves o schema ds) (name : String) :
    Option.Rel (RegistryEntry.Serves (.builtIn o) schema) (r.entry? name) (definition? ds name) :=
  rel_find? (List.forall₂_reverse_iff.mpr h.entries) name

/-- The validator that a decoder uses is the one that binding gives for its definition. -/
theorem Serves.validatorOf_eq (h : r.Serves o schema ds) {e : RegistryEntry} {d : Definition}
    (hserves : e.Serves (.builtIn o) schema d) :
    (r.validatorOf e).1 = (ValidatorCompiler.builtIn o).bind schema d.pointer := by
  have hsource := hserves.2
  unfold validatorOf
  cases hkind : e.source with
  | precompiled b =>
    rw [hkind] at hsource
    exact hsource.symm
  | pointerLookup pointer =>
    rw [hkind] at hsource
    obtain rfl : pointer = d.pointer := hsource
    exact (LazyEngine.validator_eq h.coherent d.pointer).trans (by rw [h.schema_eq, h.options_eq])

/-- Finding a validator keeps the state of a registry. -/
theorem Serves.validatorOf (h : r.Serves o schema ds) (e : RegistryEntry) :
    (r.validatorOf e).2.Serves o schema ds ∧ (r.validatorOf e).2.name = r.name := by
  unfold Registry.validatorOf
  split
  · exact ⟨h, rfl⟩
  · next pointer _ =>
    exact ⟨⟨h.entries, (LazyEngine.schema_validator _ _).trans h.schema_eq,
      (LazyEngine.options_validator _ _).trans h.options_eq, h.coherent.validator pointer⟩, rfl⟩

/-- **One call** answers for the definition of its name, and keeps the state of the registry. -/
theorem Serves.decode (h : r.Serves o schema ds) (name : String) (v : Json) :
    (r.decode name v).1 = answer o schema ds r.name name v
      ∧ (r.decode name v).2.Serves o schema ds ∧ (r.decode name v).2.name = r.name := by
  have hrel := h.rel_entry? name
  unfold Registry.decode answer
  generalize hfound : r.entry? name = found at hrel ⊢
  generalize definition? ds name = definition at hrel ⊢
  cases hrel with
  | none => exact ⟨rfl, h, rfl⟩
  | some hserves =>
      refine ⟨?_, h.validatorOf _⟩
      simp only
      rw [hserves.1, h.validatorOf_eq hserves]

/-! ## Runs -/

/-- The answers to calls one after another, and the registry afterwards. -/
def decodeAll (r : Registry) : List (String × Json) → List (Except DecodeError Json) × Registry
  | [] => ([], r)
  | (name, v) :: rest =>
    let (first, r) := r.decode name v
    let (more, r) := decodeAll r rest
    (first :: more, r)

/-- **A run** gives the answers of the definitions, and keeps the state of the registry. -/
theorem Serves.decodeAll : ∀ {r : Registry}, r.Serves o schema ds → ∀ calls : List (String × Json),
    (r.decodeAll calls).1 = calls.map (fun c => answer o schema ds r.name c.1 c.2)
      ∧ (r.decodeAll calls).2.Serves o schema ds ∧ (r.decodeAll calls).2.name = r.name
  | r, h, [] => ⟨rfl, h, rfl⟩
  | r, h, (name, v) :: rest => by
      obtain ⟨hanswer, hserves, hname⟩ := h.decode name v
      obtain ⟨hanswers, hserves', hname'⟩ := Serves.decodeAll hserves rest
      refine ⟨?_, hserves', hname'.trans hname⟩
      rw [List.map_cons, ← hanswer, ← hname]
      exact congrArg _ hanswers

/-! ## The registry for a schema -/

/-- What a definition answers to a value. -/
theorem answer_of_mem (hnodup : (ds.map Definition.name).Nodup) {d : Definition} (hd : d ∈ ds)
    (registry : String) (v : Json) :
    answer o schema ds registry d.name v
      = check d.name ((ValidatorCompiler.builtIn o).bind schema d.pointer) v := by
  unfold answer
  rw [definition?_of_mem hnodup hd]

/-- A value is given back exactly when there is a validator and it accepts the value. -/
theorem check_eq_ok_iff {label : String} {validator : Option BoundValidator} {v w : Json} :
    check label validator v = .ok w ↔ w = v ∧ ∃ b, validator = some b ∧ b.accepts v = true := by
  unfold check
  cases validator with
  | none => simp
  | some b =>
      by_cases h : b.accepts v = true
      · simpa [h] using eq_comm
      · simp [h]

/-- A fault comes with the value that it concerns. -/
theorem json_of_check {label : String} {validator : Option BoundValidator} {v : Json} {e : DecodeError}
    (h : check label validator v = .error e) : e.json = v := by
  unfold check at h
  cases validator with
  | none => rw [← Except.error.inj h]
  | some b =>
      simp only at h
      split at h
      · exact absurd h (by simp)
      · rw [← Except.error.inj h]

/-- The registry for a schema is made from its plan. -/
theorem ofSchema_eq_ok_iff {o : GenerateOptions} {schema : Json} {r : Registry} :
    ofSchema o schema = .ok r ↔ ∃ p, Plan.ofSchema (.builtIn o.validator) o schema = .ok p
      ∧ ofEntries (o.decoderName.getD defaultName) p.schema p.decoders o.validator = r := by
  unfold ofSchema
  cases Plan.ofSchema (.builtIn o.validator) o schema with
  | error e => simp [bind, Except.bind]
  | ok p => simp [bind, Except.bind, pure, Except.pure]

/-- The registry for a schema serves its definitions. -/
theorem serves_of_ofSchema {o : GenerateOptions} {schema : Json} {r : Registry}
    (h : ofSchema o schema = .ok r) :
    ∃ definitions ds, Definitions.ofSchema schema = .ok definitions
      ∧ definitions.enumerate o.naming o.collision = .ok ds
      ∧ r.name = o.decoderName.getD defaultName
      ∧ r.Serves o.validator definitions.toSchema ds := by
  obtain ⟨p, hplan, rfl⟩ := ofSchema_eq_ok_iff.mp h
  obtain ⟨ds, hdefinitions, hnamed, hplanned⟩ := Plan.ofSchema_eq_ok_iff.mp hplan
  have hds : p.planned.map PlannedDecoder.definition = ds := by
    rw [hplanned, List.map_map]
    exact List.map_id ds
  have hentries := forall₂_bindEntry (.builtIn o.validator) p.schema p.planned
  rw [hds] at hentries
  exact ⟨p.definitions, ds, hdefinitions, hnamed, rfl, hentries, rfl, rfl, LazyEngine.coherent_new _ _⟩

/-- There is a registry for a schema whose definitions all get identifiers. -/
theorem exists_ofSchema {o : GenerateOptions} {schema : Json} {definitions : Definitions}
    {ds : List Definition} (hdefinitions : Definitions.ofSchema schema = .ok definitions)
    (hnamed : definitions.enumerate o.naming o.collision = .ok ds) : ∃ r, ofSchema o schema = .ok r := by
  have hplan : Plan.ofSchema (.builtIn o.validator) o schema
      = .ok ⟨definitions, ds.map fun d => ⟨d, Plan.sourceOf? (.builtIn o.validator) o.mode
        definitions.toSchema d⟩⟩ :=
    Plan.ofSchema_eq_ok_iff.mpr ⟨ds, hdefinitions, hnamed, rfl⟩
  exact ⟨_, ofSchema_eq_ok_iff.mpr ⟨_, hplan, rfl⟩⟩

/-- **The answers of the registry for a schema.**  Its names are those of the definitions.  After any run of
calls a definition gives a value back exactly when the reduced schema has a validator for it that accepts
the value, and a fault comes with the value; no answer depends on the calls before it, and the registry
without validators compiled ahead answers every run alike. -/
theorem answers_of_ofSchema {o : GenerateOptions} {schema : Json} {r : Registry}
    (h : ofSchema o schema = .ok r) :
    ∃ definitions ds, Definitions.ofSchema schema = .ok definitions
      ∧ definitions.enumerate o.naming o.collision = .ok ds
      ∧ r.names = ds.map Definition.name
      ∧ (∀ name, r.contains name = true ↔ name ∈ r.names)
      ∧ (∀ calls, ∀ d ∈ ds, ∀ v,
          (∀ w, ((r.decodeAll calls).2.decode d.name v).1 = .ok w
              ↔ w = v ∧ ∃ b, (ValidatorCompiler.builtIn o.validator).bind definitions.toSchema
                  (definitionPointer d.key) = some b ∧ b.accepts v = true)
            ∧ ∀ e, ((r.decodeAll calls).2.decode d.name v).1 = .error e → e.json = v)
      ∧ (∀ calls name v, ((r.decodeAll calls).2.decode name v).1 = (r.decode name v).1)
      ∧ (∀ calls name v, name ∉ r.names →
          ((r.decodeAll calls).2.decode name v).1 = .error ⟨.unknownDecoder r.name name, v⟩)
      ∧ ∀ pack, ∃ r', ofSchema { o with pack } schema = .ok r' ∧ r'.names = r.names
          ∧ ∀ calls, (r'.decodeAll calls).1 = (r.decodeAll calls).1 := by
  obtain ⟨definitions, ds, hdefinitions, hnamed, hname, hserves⟩ := serves_of_ofSchema h
  have hnodup := Definitions.nodup_of_enumerate hnamed
  -- after any run an answer is that of the definition
  have hanswer (calls : List (String × Json)) (name : String) (v : Json) :
      ((r.decodeAll calls).2.decode name v).1
        = answer o.validator definitions.toSchema ds r.name name v := by
    obtain ⟨-, hlater, hlaterName⟩ := hserves.decodeAll calls
    rw [(hlater.decode name v).1, hlaterName]
  refine ⟨definitions, ds, hdefinitions, hnamed, hserves.names_eq, fun name => ?_, fun calls d hd v => ?_,
    fun calls name v => ?_, fun calls name v hname => ?_, fun pack => ?_⟩
  · have hrel := hserves.rel_entry? name
    unfold contains
    rw [hserves.names_eq, ← not_iff_not, ← definition?_eq_none_iff]
    generalize r.entry? name = found at hrel ⊢
    generalize definition? ds name = definition at hrel ⊢
    cases hrel <;> simp
  · rw [hanswer, answer_of_mem hnodup hd]
    exact ⟨fun w => check_eq_ok_iff, fun e => json_of_check⟩
  · rw [hanswer, (hserves.decode name v).1]
  · rw [hserves.names_eq] at hname
    rw [hanswer, answer, definition?_eq_none_iff.mpr hname]
  · -- the two plans differ in what is compiled ahead, which no answer shows
    obtain ⟨r', hr'⟩ := exists_ofSchema (o := { o with pack }) hdefinitions hnamed
    obtain ⟨definitions', ds', hdefinitions', hnamed', hname', hserves'⟩ := serves_of_ofSchema hr'
    obtain rfl := Except.ok.inj (hdefinitions.symm.trans hdefinitions')
    obtain rfl := Except.ok.inj (hnamed.symm.trans hnamed')
    refine ⟨r', hr', hserves'.names_eq.trans hserves.names_eq.symm, fun calls => ?_⟩
    rw [(hserves.decodeAll calls).1, (hserves'.decodeAll calls).1, hname, hname']

/-- A schema with two definitions. -/
def pairSchema : Json :=
  .obj [("definitions", .obj [("foo", .obj [("type", .str "string")]), ("bar", .obj [("$ref", .str "#")])])]

/-- The registry for that schema knows its definitions by their identifiers, and only by these, after any
run; an answer is the same at the start of a run and behind it, with and without validators compiled ahead. -/
theorem answers_of_ofSchema_pair :
    ∃ r r', ofSchema {} pairSchema = .ok r ∧ ofSchema { pack := false } pairSchema = .ok r'
      ∧ r.names = ["Foo", "Bar"]
      ∧ (∀ calls v, ((r.decodeAll calls).2.decode "foo" v).1 = .error ⟨.unknownDecoder r.name "foo", v⟩)
      ∧ (∀ calls v, ((r.decodeAll calls).2.decode "Foo" v).1 = (r.decode "Foo" v).1)
      ∧ ∀ calls, (r'.decodeAll calls).1 = (r.decodeAll calls).1 := by
  have hdefinitions : Definitions.ofSchema pairSchema
      = .ok ⟨[("foo", .obj [("type", .str "string")]), ("bar", .obj [("$ref", .str "#")])], by simp⟩ := rfl
  obtain ⟨r, hr⟩ := exists_ofSchema (o := {}) hdefinitions rfl
  obtain ⟨definitions, ds, hdefinitions', hnamed, hnames, -, -, hsame, hunknown, hpack⟩ :=
    answers_of_ofSchema hr
  obtain ⟨r', hr', -, halike⟩ := hpack false
  obtain rfl := Except.ok.inj (hdefinitions.symm.trans hdefinitions')
  have hlist : r.names = ["Foo", "Bar"] := by
    rw [hnames, ← Except.ok.inj hnamed]
    rfl
  exact ⟨r, r', hr, hr', hlist, fun calls v => hunknown calls "foo" v (by rw [hlist]; decide),
    fun calls v => hsame calls "Foo" v, halike⟩

end Registry

end DecoderForge
