import DecoderForge.Proofs.Types.Block
import DecoderForge.Proofs.Types.Made
import DecoderForge.Proofs.Types.References

/-!
# DecoderForge — the names that a declaration refers to

A type is written from some of the schemas inside a schema, and from the targets of references that stand for
no definition.  The references on this way that do stand for a definition put its name into the text; all
other references in the schema leave no trace.

## The architecture

* **`Ingredient`** — the schemas inside a schema whose types stand in its type.
* **`Scope.Visits`** — the schemas on the way, through ingredients and targets.
* **`Scope.Mentions`** — the names of definitions that the text refers to.
-/

namespace DecoderForge.Types

/-! ## Ingredients -/

/-- A schema that has a certain word of `type` among its alternatives. -/
structure HasType (schema : Json) (word : String) : Prop where
  const : schema.get? "const" = none
  enum : (schema.get? "enum").bind Json.asItems? = none
  word : word ∈ typeNames schema

/-- The schemas inside a schema whose types stand in its type.  Beside named members the type of all others is
`unknown`, whatever is said of those. -/
inductive Ingredient (schema : Json) : Json → Prop where
  | property {k : String} {t : Json} (htype : HasType schema "object") (h : (k, t) ∈ propertiesOf schema) :
      Ingredient schema t
  | others {t : Json} (htype : HasType schema "object") (hnone : propertiesOf schema = [])
      (h : schema.get? "additionalProperties" = some t) (ht : ∀ b, t ≠ .bool b) : Ingredient schema t
  | pattern {k : String} {v t : Json} {patterns : Json.Members} (htype : HasType schema "object")
      (hnone : propertiesOf schema = []) (hothers : schema.get? "additionalProperties" = some v)
      (hv : v ≠ .bool true) (h : schema.get? "patternProperties" = some (.obj patterns))
      (hmem : (k, t) ∈ patterns) : Ingredient schema t
  | items {t : Json} (htype : HasType schema "array") (h : schema.get? "items" = some t)
      (ht : ∀ items, t ≠ .arr items) : Ingredient schema t
  | item {t : Json} {items : List Json} (htype : HasType schema "array")
      (h : schema.get? "items" = some (.arr items)) (hmem : t ∈ items) : Ingredient schema t
  | rest {t : Json} {items : List Json} (htype : HasType schema "array")
      (h : schema.get? "items" = some (.arr items)) (hrest : schema.get? "additionalItems" = some t)
      (ht : ∀ b, t ≠ .bool b) : Ingredient schema t
  | branch {t : Json} {keyword : String} {subs : List Json} (hkeyword : keyword ∈ ["allOf", "anyOf", "oneOf"])
      (h : schema.get? keyword = some (.arr subs)) (hmem : t ∈ subs) : Ingredient schema t

/-- The type of members that several schemas speak of. -/
def indexFrom (style : Style) (hasProperties : Bool) (members : List TypeExpr) :
    Except Fault (Option TypeExpr) :=
  match members with
  | [] => pure none
  | members => pure (some (if hasProperties then .unknown else .union style members))

theorem Ingredient.part {schema t : Json} (h : Ingredient schema t) : Part schema t := by
  cases h with
  | property _ h => exact .property h
  | others _ _ h _ => exact .others h
  | pattern _ _ _ _ h hmem => exact .pattern h hmem
  | items _ h _ => exact .items h
  | item _ h hmem => exact .item h hmem
  | rest _ _ hrest _ => exact .rest hrest
  | branch hkeyword h hmem => exact .branch hkeyword h hmem

/-- Keywords that a schema declared as an interface does not have. -/
def noInterface : List String := ["$ref", "allOf", "anyOf", "oneOf", "enum", "const"]

/-- Whatever is declared as an interface is an object and nothing else. -/
theorem absent_of_isInterface {schema : Json} (h : isInterface schema = true) :
    (∀ keyword ∈ noInterface, schema.get? keyword = none) ∧ typeNames schema = ["object"] := by
  cases schema with
  | obj members =>
      have hcontains : ∀ keyword,
          Json.Members.contains members keyword = (Json.get? (.obj members) keyword).isSome :=
        fun keyword => Json.contains_eq_isSome_get? keyword members
      unfold isInterface at h
      simp only at h
      split at h
      · exact absurd h (by simp)
      next hany =>
      constructor
      · intro keyword hkeyword
        have hno := List.any_eq_false.mp (Bool.not_eq_true _ ▸ hany) keyword hkeyword
        rw [hcontains] at hno
        simpa using hno
      · unfold typeNames
        split at h
        · next name hname =>
          obtain rfl := eq_of_beq h
          have hget : Json.get? (.obj members) "type" = some (.str "object") := hname
          simp [hget]
        · exact absurd h (by simp)
        · next hname =>
          have hget : Json.get? (.obj members) "type" = none := hname
          rw [hcontains, hcontains] at h
          simp [hget, h]
  | null | bool _ | num _ | str _ | arr _ => exact absurd h (by simp [isInterface])

/-! ## The way of the compiler -/

/-- One step from a schema to a schema that its text is written from: an ingredient, or the target of its
reference where the reference stands for no definition. -/
inductive Scope.Follows (scope : Scope) (s : Json) : Json → Prop where
  | ingredient {t : Json} (hnone : s.get? "$ref" = none) (h : Ingredient s t) : Scope.Follows scope s t
  | target {t : Json} {r : String} (h : s.get? "$ref" = some (.str r)) (hne : r ≠ "#")
      (hnone : scope.names.lookup r = none) (hresolve : resolveLocal? scope.root r = some t) :
      Scope.Follows scope s t

theorem Scope.Follows.reads {scope : Scope} {s t : Json} (h : scope.Follows s t) : scope.Reads s t := by
  cases h with
  | ingredient _ hpart => exact .part hpart.part
  | target h hne hnone hresolve => exact .target h hne hnone hresolve

/-- The compiler goes on into a schema unless a hint says what stands for it. -/
def Scope.Enters (scope : Scope) (s t : Json) : Prop :=
  scope.Follows s t ∧ t.getString? typeHintKey = none

/-- The schemas that the text of a schema is written from, itself included. -/
def Scope.Visits (scope : Scope) : Json → Json → Prop := Relation.ReflTransGen scope.Enters

/-- A schema that is nothing but the name of a definition. -/
def Scope.StandsFor (scope : Scope) (s : Json) (name : String) : Prop :=
  ∃ r, s.get? "$ref" = some (.str r) ∧ r ≠ "#" ∧ scope.names.lookup r = some name

/-- The names of definitions that the text of a schema refers to, in references of its own or in those that
are written out in their place. -/
def Scope.Mentions (scope : Scope) (s : Json) (name : String) : Prop :=
  ∃ t, scope.Visits s t ∧ scope.StandsFor t name

end DecoderForge.Types
