import DecoderForge.Proofs.Types.MembersInText
import DecoderForge.Proofs.Types.Mentions

/-!
# DecoderForge — the members of an object type

An object type has a member for each property of its schema and one more for all others, unless these are forbidden.
Interfaces and the object types inside of other types are made alike, whatever the types of the members come from.

## The architecture

* **`IsMember`** — what the member for a property says.
* **`isMember_of_collect`** — one member for each property, in order.
* **`index_of_indexType`** — when there is a member for all others, and what type it has beside properties.
* **`members_of_renders`** — the object types that are written for a schema, and what is read off their texts.
-/

namespace DecoderForge.Types

variable {style : Style} {rec : Json → Result} {schema : Json}

/-! ## Members for properties -/

/-- A schema lists a name as required. -/
def Requires (schema : Json) (name : String) : Prop :=
  ∃ values, schema.get? "required" = some (.arr values) ∧ .str name ∈ values

theorem mem_requiredNames_iff {name : String} : name ∈ requiredNames schema ↔ Requires schema name := by
  unfold requiredNames Requires
  cases hrequired : schema.get? "required" with
  | none => simp
  | some v =>
      cases v with
      | arr values =>
          have hstring : ∀ v : Json, v.asString? = some name ↔ v = .str name := by
            intro v
            cases v <;> simp [Json.asString?]
          simp [Json.asItems?, List.mem_filterMap, hstring]
      | _ => simp [Json.asItems?]

/-- What the member for a property says: the name, in a spelling that is read as this name and no other, whether it may
be missing, the description, and the type. -/
structure IsMember (style : Style) (rec : Json → Result) (schema : Json) (p : String × Json)
    (m : MemberHead × TypeExpr) : Prop where
  name : m.1.name = p.1
  key : ∀ name : String, key? (keyText style m.1.name) = some (Text.utf16 name.toList, []) ↔ name = p.1
  isOptional : m.1.isOptional = true ↔ ¬ Requires schema p.1
  doc : m.1.doc = docLines? p.2
  type : rec p.2 = .ok m.2

theorem isMember_of_memberOf {p : String × Json} {m : MemberHead × TypeExpr}
    (h : memberOf rec (requiredNames schema) p = .ok m) : IsMember style rec schema p m := by
  obtain ⟨e, he, h⟩ := bind_eq_ok h
  obtain rfl := Except.ok.inj h
  have hkey : key? (keyText style p.1) = some (Text.utf16 p.1.toList, []) := by
    have hnothing : ∀ c ∈ ([] : List Char).head?, Layout.isWordChar c = false := nofun
    have hread := key?_keyText style p.1 hnothing
    rwa [List.append_nil] at hread
  refine ⟨rfl, fun name => ?_, ?_, rfl, he⟩
  · rw [hkey]
    constructor
    · intro h
      exact String.toList_injective (Text.utf16_injective (Prod.mk.inj (Option.some.inj h)).1).symm
    · rintro rfl
      rfl
  · rw [← mem_requiredNames_iff]
    simp

/-- **One member for each property, in order.** -/
theorem isMember_of_collect {properties : Json.Members} {members : List (MemberHead × TypeExpr)}
    (h : collect (memberOf rec (requiredNames schema)) properties = .ok members) :
    List.Forall₂ (IsMember style rec schema) properties members :=
  (forall₂_collect h).imp fun _ _ => isMember_of_memberOf

/-! ## The member for all others -/

/-- A schema has patterns for the names of members. -/
def HasPatterns (schema : Json) : Prop :=
  ∃ patterns, schema.get? "patternProperties" = some (.obj patterns) ∧ patterns ≠ []

/-- A type for all other members, from the types that speak of them. -/
theorem index_of_types {hasProperties : Bool} {types : List TypeExpr} {index : Option TypeExpr}
    (h : indexFrom style hasProperties types = .ok index) :
    (index.isSome = true ↔ types ≠ []) ∧ (hasProperties = true → ∀ e ∈ index, e = .unknown) := by
  cases types with
  | nil =>
      obtain rfl := Except.ok.inj h
      exact ⟨by simp, fun _ => nofun⟩
  | cons first more =>
      obtain rfl := Except.ok.inj h
      refine ⟨by simp, fun hproperties e he => ?_⟩
      rw [hproperties] at he
      exact (Option.mem_some.mp he).symm

theorem index_of_indexBeside {hasProperties : Bool} {others : List TypeExpr} {index : Option TypeExpr}
    (h : indexBeside style rec schema hasProperties others = .ok index) :
    (index.isSome = true ↔ others ≠ [] ∨ HasPatterns schema)
      ∧ (hasProperties = true → ∀ e ∈ index, e = .unknown) := by
  unfold indexBeside at h
  split at h
  · next patterns hpatterns =>
    obtain ⟨types, htypes, h⟩ := bind_eq_ok h
    obtain ⟨hsome, hunknown⟩ := index_of_types h
    have hlength := (forall₂_collect htypes).length_eq
    have hhas : HasPatterns schema ↔ types ≠ [] := by
      rw [HasPatterns, get?_of_asMembers? hpatterns]
      simp [← List.length_eq_zero_iff, hlength]
    rw [hsome, hhas]
    exact ⟨by simp only [ne_eq, List.append_eq_nil_iff]; tauto, hunknown⟩
  · next hnone =>
    obtain ⟨types, htypes, h⟩ := bind_eq_ok h
    obtain rfl := Except.ok.inj htypes
    obtain ⟨hsome, hunknown⟩ := index_of_types h
    have hhas : ¬ HasPatterns schema := by
      rintro ⟨patterns, hpatterns, -⟩
      rw [hpatterns] at hnone
      exact absurd hnone (by simp [Json.asMembers?])
    rw [hsome, List.append_nil]
    exact ⟨by tauto, hunknown⟩

/-- **When there is a member for all others**: unless other members are forbidden and no pattern allows any.  Beside
properties its type is `unknown`. -/
theorem index_of_indexType {hasProperties : Bool} {index : Option TypeExpr}
    (h : indexType style rec schema hasProperties = .ok index) :
    (index.isSome = true ↔ schema.get? "additionalProperties" ≠ some (.bool false) ∨ HasPatterns schema)
      ∧ (hasProperties = true → ∀ e ∈ index, e = .unknown) := by
  have hunknown : ∀ e ∈ some TypeExpr.unknown, e = .unknown := fun e he => (Option.mem_some.mp he).symm
  unfold indexType at h
  cases hadditional : schema.get? "additionalProperties" with
  | none =>
      simp only [hadditional] at h
      obtain rfl := Except.ok.inj h
      exact ⟨by simp, fun _ => hunknown⟩
  | some additional =>
      cases additional with
      | bool b =>
          cases b with
          | true =>
              simp only [hadditional] at h
              obtain rfl := Except.ok.inj h
              exact ⟨by simp, fun _ => hunknown⟩
          | false =>
              simp only [hadditional] at h
              have hbeside : indexBeside style rec schema hasProperties [] = .ok index := h
              simpa using index_of_indexBeside hbeside
      | _ =>
          simp only [hadditional] at h
          obtain ⟨e, -, h⟩ := bind_eq_ok h
          have hbeside : indexBeside style rec schema hasProperties [e] = .ok index := h
          simpa using index_of_indexBeside hbeside

/-! ## Object types -/

/-- The object types that are written for a schema, with the types that its parts have there. -/
inductive Scope.Renders (scope : Scope) (schema : Json) : (Json → Result) → TypeExpr → Prop where
  /-- The body of an interface. -/
  | interface {options : Options} {name : String} {d : Declaration} {e : TypeExpr}
      (h : declare scope options name schema = .ok d) (hbody : d.body = .interface e) :
      scope.Renders schema scope.expr e
  /-- An object type inside of another type. -/
  | literal {rec : Json → Result} {e : TypeExpr} (h : namedType scope.style rec schema "object" = .ok e) :
      scope.Renders schema rec e

theorem Scope.Renders.objectType {scope : Scope} {e : TypeExpr} (h : scope.Renders schema rec e) :
    Types.objectType scope.style rec schema = .ok e := by
  cases h with
  | literal h => exact h
  | interface h hbody =>
      unfold declare at h
      split at h
      · obtain rfl := Except.ok.inj h
        exact absurd hbody (by simp)
      split at h
      · obtain ⟨type, htype, rfl⟩ := map_eq_ok h
        obtain rfl := Body.interface.inj hbody
        exact htype
      · obtain ⟨type, -, rfl⟩ := map_eq_ok h
        exact absurd hbody (by simp)

/-- The comments of members are comments up to their ends. -/
theorem hidden_of_isMember {properties : Json.Members} {members : List (MemberHead × TypeExpr)}
    (h : List.Forall₂ (IsMember style rec schema) properties members) :
    ∀ m ∈ members, Layout.Hidden .code (docText m.1.doc) .code := by
  induction h with
  | nil => exact nofun
  | @cons p m _ _ hmember _ ih =>
      refine List.forall_mem_cons.mpr ⟨?_, ih⟩
      rw [hmember.doc]
      exact hidden_docText_docLines? p.2

/-- What is made for a schema as an object type: a member for each property and one for all others, and the same are
read off the text if the text of each type is read as one. -/
theorem members_of_objectType {e : TypeExpr} (h : objectType style rec schema = .ok e) :
    ∃ members index, e = .object members index
      ∧ List.Forall₂ (IsMember style rec schema) (propertiesOf schema) members
      ∧ (index.isSome = true ↔ schema.get? "additionalProperties" ≠ some (.bool false) ∨ HasPatterns schema)
      ∧ (members ≠ [] → ∀ i ∈ index, i = .unknown)
      ∧ ((∀ m ∈ members, Whole (m.2.render style)) → (∀ i ∈ index, Whole (i.render style)) →
          ∀ depth : Nat,
            entries? (Layout.squeezed .code ((indentLines style.indentUnit)^[depth] (e.render style)))
              = some (entriesOf style members index)) := by
  obtain ⟨members, hmembers, h⟩ := bind_eq_ok h
  obtain ⟨index, hindex, h⟩ := bind_eq_ok h
  obtain rfl := Except.ok.inj h
  have hall : List.Forall₂ (IsMember style rec schema) (propertiesOf schema) members := isMember_of_collect hmembers
  obtain ⟨hsome, hunknown⟩ := index_of_indexType hindex
  refine ⟨members, index, rfl, hall, hsome, fun hne => hunknown ?_, fun hwhole hother depth => ?_⟩
  · have hlength := hall.length_eq
    cases hproperties : propertiesOf schema with
    | nil =>
        rw [hproperties] at hlength
        exact absurd (List.length_eq_zero_iff.mp hlength.symm) hne
    | cons p more => rfl
  · exact entries?_object (hidden_of_isMember hall) hwhole hother depth

/-- **The members of an object type.**  An object type that is written for a schema has exactly one member for each
property, in order, under the name of the property, which may be missing exactly if the schema does not require it;
and then one for all others exactly if these are not forbidden or there are patterns that allow some.  Beside members
for properties that one has the type `unknown`.

Off the text of the object type, however deep it stands, just these members are read, each with its name, its mark and
its type, as long as the text of each type is read as one.  A hint is put in as it stands and need not be; and a
description with an odd number of parentheses may lead the compiler to take away two that do not belong together.  In a
legible schema there is neither, and nothing is asked of the texts of an interface: `interfaces_read_back`. -/
theorem members_of_renders {scope : Scope} {e : TypeExpr} (h : scope.Renders schema rec e) :
    ∃ members index, e = .object members index
      ∧ List.Forall₂ (IsMember scope.style rec schema) (propertiesOf schema) members
      ∧ (index.isSome = true ↔ schema.get? "additionalProperties" ≠ some (.bool false) ∨ HasPatterns schema)
      ∧ (members ≠ [] → ∀ i ∈ index, i = .unknown)
      ∧ ((∀ m ∈ members, Whole (m.2.render scope.style)) → (∀ i ∈ index, Whole (i.render scope.style)) →
          ∀ depth : Nat,
            entries? (Layout.squeezed .code ((indentLines scope.style.indentUnit)^[depth] (e.render scope.style)))
              = some (entriesOf scope.style members index)) :=
  members_of_objectType h.objectType

/-- A number with a description of two lines, in which a brace opens. -/
def labelNumber : Json := .obj [("type", .str "number"), ("description", .str "A ; and a \x7b\nof its own")]

/-- An object type with a quote in its one name. -/
def labelText : Json :=
  .obj [("type", .str "object"), ("additionalProperties", .bool false),
    ("properties", .obj [("it's", .obj [("type", .str "string")])])]

/-- A schema with a plain name and one in quotes. -/
def labelSchema : Json :=
  .obj [("type", .str "object"), ("required", .arr [.str "x"]), ("additionalProperties", .bool false),
    ("properties", .obj [("x", labelNumber), ("label;text", labelText)])]

def labelScope : Scope := ⟨labelSchema, {}, []⟩

def labelInner : TypeExpr := .object [(⟨none, "it's", true⟩, .ofString "string")] none

def labelMembers : List (MemberHead × TypeExpr) :=
  [(⟨docLines? labelNumber, "x", false⟩, .ofString "number"), (⟨none, "label;text", true⟩, labelInner)]

/-- At any depth two members are read, the type of the second without the blanks of its lines. -/
theorem members_of_renders_label :
    labelScope.Renders labelSchema labelScope.expr (.object labelMembers none)
      ∧ ∀ depth : Nat, entries? (Layout.squeezed .code
          ((indentLines labelScope.style.indentUnit)^[depth]
            ((TypeExpr.object labelMembers none).render labelScope.style)))
        = some [.named (Text.utf16 "x".toList) false "number".toList,
            .named (Text.utf16 "label;text".toList) true "\x7b'it\\'s'?:string;\x7d".toList] := by
  have hobject : labelScope.objectType labelSchema = .ok (.object labelMembers none) := rfl
  have hdeclare : declare labelScope {} "Label" labelSchema
      = (labelScope.objectType labelSchema).map fun type => ⟨"Label", none, .interface type⟩ := rfl
  rw [hobject] at hdeclare
  have h : labelScope.Renders labelSchema labelScope.expr (.object labelMembers none) := .interface hdeclare rfl
  refine ⟨h, ?_⟩
  obtain ⟨members, index, heq, -, -, -, hreads⟩ := members_of_renders h
  obtain ⟨rfl, rfl⟩ := TypeExpr.object.inj heq
  have hword : ∀ {s : String}, (∀ c ∈ s.toList, Layout.isPlain c = true) → ';' ∉ s.toList →
      Whole ((TypeExpr.ofString s).render labelScope.style) := fun hplain hsemicolon => by
    rw [TypeExpr.ofString, TypeExpr.render]
    exact whole_of_plain hplain hsemicolon
  have hinner : Whole (labelInner.render labelScope.style) :=
    whole_object (List.forall_mem_singleton.mpr (Layout.Hidden.nil _))
      (List.forall_mem_singleton.mpr (hword (by decide) (by decide))) (by simp)
  have hwhole : ∀ m ∈ labelMembers, Whole (m.2.render labelScope.style) :=
    List.forall_mem_cons.mpr ⟨hword (by decide) (by decide), List.forall_mem_singleton.mpr hinner⟩
  have hentries : entriesOf labelScope.style labelMembers none
      = [.named (Text.utf16 "x".toList) false "number".toList,
        .named (Text.utf16 "label;text".toList) true "\x7b'it\\'s'?:string;\x7d".toList] := by decide
  intro depth
  rw [← hentries]
  exact hreads hwhole (by simp) depth

end DecoderForge.Types
