import DecoderForge.Proofs.Module.Acceptance

/-!
# DecoderForge — one declaration for each decoder

Names are given out twice, once for the plan and once by the type compiler, over the same definitions.
What is declared therefore follows the decoders, with the container in front, and the container is told
from the others by its name alone.

## The architecture

* **`Types.compile_eq_ok`** — what is compiled: the container, then each definition.
* **`Plan.exists_declared`** — what a block is made of, one declaration after another.
* **`Plan.block_declares`** — which decoders have a declaration in the block.
-/

namespace DecoderForge

namespace Types

theorem forall₂_collect {α β : Type} {f : α → Except Fault β} :
    ∀ {l : List α} {bs : List β}, collect f l = .ok bs → List.Forall₂ (fun a b => f a = .ok b) l bs
  | [], bs, h => by
      obtain rfl : [] = bs := Except.ok.inj h
      exact .nil
  | a :: rest, bs, h => by
      rw [collect] at h
      obtain ⟨b, hb, h⟩ := bind_eq_ok h
      obtain ⟨more, hmore, h⟩ := bind_eq_ok h
      obtain rfl : b :: more = bs := Except.ok.inj h
      exact .cons hb (forall₂_collect hmore)

/-- Declarations have the names of the definitions that they come from. -/
theorem map_name_of_declares {scope : Scope} {options : Options} {ds : List Definition}
    {declared : List Declaration}
    (h : List.Forall₂ (fun (d : Definition) declaration =>
      declare scope options d.name d.schema = .ok declaration) ds declared) :
    declared.map Declaration.name = ds.map Definition.name := by
  induction h with
  | nil => rfl
  | cons hfirst _ ih => rw [List.map_cons, List.map_cons, ih, (head_of_declare hfirst).1]

/-- **What is compiled** where all definitions count: the container, then each definition under the
identifier that it has. -/
theorem compile_eq_ok {naming : Naming} {policy : CollisionPolicy} {style : Style} {rootName : String}
    {schema : Json} {named : List Definition} {ds : List Declaration}
    (hnamed : definitionsOf naming policy schema = .ok named)
    (h : compile naming policy { style } rootName schema = .ok ds) :
    ∃ root declared, ds = root :: declared ∧ root.name = rootName
      ∧ List.Forall₂ (fun (d : Definition) declaration =>
          declare ⟨schema, style, referenceNames named⟩ { style } d.name d.schema = .ok declaration)
        named declared := by
  unfold compile at h
  obtain ⟨named', hnamed', h⟩ := bind_eq_ok h
  obtain rfl : named = named' := Except.ok.inj (hnamed.symm.trans hnamed')
  obtain ⟨root, hroot, h⟩ := bind_eq_ok h
  obtain ⟨declared, hdeclared, h⟩ := bind_eq_ok h
  obtain rfl : root :: declared = ds := Except.ok.inj h
  exact ⟨root, declared, rfl, (head_of_declare hroot).1, forall₂_collect hdeclared⟩

end Types

namespace Plan

/-- A declaration that the types of a plan have for a definition. -/
def Declares (p : Plan) (style : Style) (d : Definition) (declaration : Types.Declaration) : Prop :=
  Types.declare (p.scope style) { style } d.name d.schema = .ok declaration

/-- The definitions of a plan that do not have the name of the container. -/
def apartFromContainer (p : Plan) : List Definition :=
  (p.planned.map PlannedDecoder.definition).filter fun d => d.name != TypeCompiler.containerName

/-- **What a block is made of**: a declaration for each definition that is not named like the container,
in order, and nothing else. -/
theorem exists_declared {c : ValidatorCompiler} {o : GenerateOptions} {schema : Json} {p : Plan}
    (hplan : ofSchema c o schema = .ok p) {text : String}
    (hblock : (TypeCompiler.builtIn o.naming o.collision).block p.definitions o.style = .ok text) :
    ∃ declared : List Types.Declaration,
      text = String.intercalate "\n\n" (declared.map (·.source o.style))
        ∧ List.Forall₂ (p.Declares o.style) p.apartFromContainer declared := by
  obtain ⟨ds, hds, htext⟩ := block_eq_ok hblock
  obtain ⟨root, declared, rfl, hroot, hall⟩ := Types.compile_eq_ok (definitionsOf_schema hplan) hds
  have hcontainer : (root.name != TypeCompiler.containerName) = false := by simp [hroot]
  rw [List.filter_cons_of_neg (by simp [hcontainer])] at htext
  refine ⟨_, htext, ?_⟩
  -- a declaration has the name of its definition, so the filter drops both or neither
  refine List.rel_filter (fun d declaration h => ?_) hall
  show (d.name != TypeCompiler.containerName) = true ↔ (declaration.name != TypeCompiler.containerName) = true
  rw [(Types.head_of_declare h).1]

theorem names_of_declares {p : Plan} {style : Style} {ds : List Definition}
    {declared : List Types.Declaration} (h : List.Forall₂ (p.Declares style) ds declared) :
    declared.map Types.Declaration.name = ds.map Definition.name :=
  Types.map_name_of_declares h

theorem map_name_decoders (p : Plan) :
    p.decoders.map DecoderEntry.name = (p.planned.map PlannedDecoder.definition).map Definition.name := by
  unfold decoders
  rw [List.map_map, List.map_map]
  exact List.map_congr_left fun d _ => d.name_entry

/-- The definitions with a declaration, by the names of their decoders. -/
theorem map_name_apartFromContainer (p : Plan) :
    p.apartFromContainer.map Definition.name
      = (p.decoders.map DecoderEntry.name).filter (· != TypeCompiler.containerName) := by
  rw [map_name_decoders, List.filter_map]
  rfl

/-- **Which decoders have a declaration.**  The block of a plan is a declaration for each decoder, of its
name and in order, but for one with the name of the container; it is complete exactly when no decoder has
that name. -/
theorem block_declares {c : ValidatorCompiler} {o : GenerateOptions} {schema : Json} {p : Plan}
    (hplan : ofSchema c o schema = .ok p) {text : String}
    (hblock : (TypeCompiler.builtIn o.naming o.collision).block p.definitions o.style = .ok text) :
    ∃ declared : List Types.Declaration,
      text = String.intercalate "\n\n" (declared.map (·.source o.style))
        ∧ List.Forall₂ (p.Declares o.style) p.apartFromContainer declared
        ∧ declared.map Types.Declaration.name
            = (p.decoders.map DecoderEntry.name).filter (· != TypeCompiler.containerName)
        ∧ (declared.map Types.Declaration.name = p.decoders.map DecoderEntry.name
            ↔ TypeCompiler.containerName ∉ p.decoders.map DecoderEntry.name) := by
  obtain ⟨declared, htext, hall⟩ := exists_declared hplan hblock
  have hnames : declared.map Types.Declaration.name
      = (p.decoders.map DecoderEntry.name).filter (· != TypeCompiler.containerName) := by
    rw [names_of_declares hall, map_name_apartFromContainer]
  refine ⟨declared, htext, hall, hnames, ?_⟩
  rw [hnames, List.filter_eq_self]
  constructor
  · intro h hmem
    exact absurd (h _ hmem) (by simp)
  · intro h name hname
    have hne : name ≠ TypeCompiler.containerName := by
      rintro rfl
      exact h hname
    simpa using hne

/-- A plan with a definition named like the container, and one that refers to it. -/
def containerPlan : Plan where
  definitions := ⟨[("GeneratedContainerSchema", .obj [("type", .str "string")]),
    ("User", .obj [("$ref", .str "#/definitions/GeneratedContainerSchema")])], by simp⟩
  planned :=
    [⟨⟨"GeneratedContainerSchema", "GeneratedContainerSchema", .obj [("type", .str "string")]⟩, none⟩,
      ⟨⟨"User", "User", .obj [("$ref", .str "#/definitions/GeneratedContainerSchema")]⟩, none⟩]

/-- Of its two decoders the second has a declaration. -/
theorem block_declares_user :
    ∃ declared : List Types.Declaration,
      declared.map Types.Declaration.name = ["User"]
        ∧ declared.map Types.Declaration.name ≠ containerPlan.decoders.map DecoderEntry.name := by
  have hplan : ofSchema (.builtIn {}) { pack := false } containerPlan.schema = .ok containerPlan := rfl
  have hblock : (TypeCompiler.builtIn {} .error).block containerPlan.definitions {}
      = .ok "export type User = GeneratedContainerSchema;" := rfl
  obtain ⟨declared, -, -, hnames, hcomplete⟩ := block_declares hplan hblock
  refine ⟨declared, hnames, fun h => hcomplete.mp h (by decide)⟩

/-- The type that is left out is referred to: its definition has a decoder, the block has no declaration of
it, and the one declaration there is stands for it. -/
theorem definition_dropped_as_container :
    ofSchema (.builtIn {}) { pack := false } containerPlan.schema = .ok containerPlan
      ∧ containerPlan.decoders.map DecoderEntry.name = ["GeneratedContainerSchema", "User"]
      ∧ (TypeCompiler.builtIn {} .error).block containerPlan.definitions {}
          = .ok "export type User = GeneratedContainerSchema;" := ⟨rfl, rfl, rfl⟩

end Plan

end DecoderForge
