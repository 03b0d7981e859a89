import DecoderForge.Proofs.Schema.Inside
import DecoderForge.Validation.Binding

/-!
# DecoderForge — when a validator is bound

A validator is bound inside a wrapper that carries every definition, and the wrapper is checked as a
whole.  What the check asks of each definition does not depend on the definition that is bound.

## The architecture

* **`Draft.admits`** — what the check asks of one definition.
* **`Draft.describes_referring`**, **`Document.ofSchema_referring`** — the two halves of the check.
* **`ValidatorCompiler.bindPointer?_eq_some_iff`** — what a bound validator is.
* **`ValidatorCompiler.bindPointer?_isSome_iff`** — binding succeeds exactly when all definitions are
  admitted and the pointer is fit for a URL.
-/

namespace DecoderForge

/-- A schema of definitions and nothing else. -/
def definitionsSchema (entries : Json.Members) : Json := .obj [(definitionsKey, .obj entries)]

/-- The identifiers inside a definition can be read; names that hold constants have none inside. -/
def Document.namesOk (draft : Draft) (base : Url) (e : String × Json) : Bool :=
  e.1 == "enum" || e.1 == "const" || (namedSchemas draft base e.2).isOk

/-- What binding asks of every definition: it is a schema of the draft, and the identifiers inside it can
be read. -/
def Draft.admits (draft : Draft) (e : String × Json) : Bool :=
  draft.describes e.2 && Document.namesOk draft Document.defaultScope e

/-! ## The wrapper -/

/-- The wrapper has the definitions and the reference. -/
theorem ValidatorCompiler.referring_definitionsSchema (entries : Json.Members) (pointer : String) :
    referring (definitionsSchema entries) pointer
      = .obj [(definitionsKey, .obj entries), ("$ref", .str pointer)] := by
  have hne : (definitionsKey == "$ref") = false := by decide
  show Json.obj (Json.Members.insert [(definitionsKey, .obj entries)] "$ref" (.str pointer)) = _
  simp [Json.Members.insert, hne]

/-- The wrapper carries no identifier. -/
theorem schemaId?_wrapper (draft : Draft) (entries : Json.Members) (pointer : String) :
    schemaId? draft (.obj [(definitionsKey, .obj entries), ("$ref", .str pointer)]) = none := by
  cases draft <;>
    simp [schemaId?, Json.getString?, Json.get?, Json.Members.get?, List.lookup_cons, Draft.idKey,
      definitionsKey]

/-! ## Shapes -/

/-- Members are described one by one. -/
theorem Draft.describesMembers_eq_all (draft : Draft) :
    ∀ members : Json.Members, draft.describesMembers members = members.all fun e => draft.describes e.2
  | [] => by rw [Draft.describesMembers]; rfl
  | (_, v) :: rest => by
      rw [Draft.describesMembers, Draft.describesMembers_eq_all draft rest]
      rfl

/-- **The shape of the wrapper**: every definition is described, and the reference may stand there. -/
theorem Draft.describes_referring (draft : Draft) (entries : Json.Members) (pointer : String) :
    draft.describes (.obj [(definitionsKey, .obj entries), ("$ref", .str pointer)])
      = ((entries.all fun e => draft.describes e.2) && draft.allowsValue "$ref" (.str pointer)) := by
  have hdefinitions : SchemaPlace.ofKeyword definitionsKey = .members := rfl
  have href : SchemaPlace.ofKeyword "$ref" = .nowhere := rfl
  have hrules : draft.rules definitionsKey = true := rfl
  have hrulesRef : draft.rules "$ref" = true := rfl
  have hnames : draft.allowsNames definitionsKey entries = true := by
    simp [Draft.allowsNames, definitionsKey]
  have hflags : draft.flagsHaveLimits [(definitionsKey, .obj entries), ("$ref", .str pointer)] = true := by
    simp [Draft.flagsHaveLimits, Json.Members.contains, definitionsKey]
  rw [Draft.describes, hflags, Bool.and_true, Draft.describesKeywords.eq_def]
  simp only [hrules, hdefinitions, hnames, Bool.not_true, Bool.false_eq_true, if_false, Bool.true_and]
  rw [Draft.describesKeywords.eq_def]
  simp only [hrulesRef, href, Bool.not_true, Bool.false_eq_true, if_false]
  rw [Draft.describesKeywords, Bool.and_true, Draft.describesMembers_eq_all]

/-! ## Identifiers -/

namespace Document

/-- The identifiers of members can be read when those of each member can. -/
theorem isOk_namedInMembers (draft : Draft) (base : Url) :
    ∀ members : Json.Members, (namedInMembers draft base members).isOk = members.all (namesOk draft base)
  | [] => by rw [namedInMembers]; rfl
  | (k, v) :: rest => by
      have ih := isOk_namedInMembers draft base rest
      rw [namedInMembers, List.all_cons, ← ih]
      unfold namesOk
      by_cases hk : (k == "enum" || k == "const") = true
      · rw [if_pos hk, hk, Bool.true_or, Bool.true_and]
        cases namedInMembers draft base rest <;> rfl
      · rw [if_neg hk, Bool.eq_false_iff.mpr hk, Bool.false_or]
        cases namedSchemas draft base v with
        | error f => rfl
        | ok first => cases namedInMembers draft base rest <;> rfl

/-- Described definitions under the key of identifiers are no identifier of the map that holds them. -/
theorem schemaId?_of_describes {draft : Draft} {entries : Json.Members}
    (h : ∀ e ∈ entries, draft.describes e.2 = true) : schemaId? draft (.obj entries) = none := by
  unfold schemaId? Json.getString?
  cases hget : (Json.obj entries).get? draft.idKey with
  | none => rfl
  | some v =>
      have hv := h _ (Json.mem_of_get? hget)
      cases v with
      | str s => exact absurd hv (by simp [Draft.describes])
      | null | bool _ | num _ | arr _ | obj _ => rfl

/-- **The identifiers of the wrapper** are those of its definitions; the wrapper itself has none. -/
theorem ofSchema_referring {draft : Draft} {entries : Json.Members}
    (h : ∀ e ∈ entries, draft.describes e.2 = true) (pointer : String) :
    ofSchema draft (.obj [(definitionsKey, .obj entries), ("$ref", .str pointer)])
      = (namedInMembers draft defaultScope entries).map fun named =>
          ⟨draft, .obj [(definitionsKey, .obj entries), ("$ref", .str pointer)], defaultScope, named⟩ := by
  have hkey : (definitionsKey == "enum" || definitionsKey == "const") = false := by decide
  have href : ("$ref" == "enum" || "$ref" == "const") = false := by decide
  have hstring : namedSchemas draft defaultScope (.str pointer) = .ok [] := by
    rw [namedSchemas.eq_def]
  have hnamed : namedSchemas draft defaultScope
      (.obj [(definitionsKey, .obj entries), ("$ref", .str pointer)])
      = (namedInMembers draft defaultScope entries).map (· ++ []) := by
    rw [namedSchemas, schemaId?_wrapper]
    simp only
    rw [namedInMembers, hkey, namedSchemas, schemaId?_of_describes h]
    simp only [Bool.false_eq_true, if_false]
    rw [namedInMembers, href, hstring, namedInMembers]
    cases namedInMembers draft defaultScope entries <;> rfl
  unfold ofSchema
  rw [schemaId?_wrapper]
  simp only [bind, Except.bind, hnamed]
  cases namedInMembers draft defaultScope entries with
  | error f => rfl
  | ok named => simp [Except.map, pure, Except.pure]

end Document

/-! ## Binding -/

namespace ValidatorCompiler

/-- **What a bound validator is**: the wrapper around the definition, which is a schema of the draft, as a constraint
in its own document. -/
theorem bindPointer?_eq_some_iff {o : ValidatorOptions} {schema : Json} {pointer : String} {b : BoundValidator} :
    bindPointer? o schema pointer = some b
      ↔ (resolveLocal? schema pointer).isSome = true ∧ o.draft.describes (referring schema pointer) = true
        ∧ ∃ d c, Document.ofSchema o.draft (referring schema pointer) = .ok d
          ∧ Constraint.ofSchema ⟨o.draft, o.validateFormats⟩ d.scope (referring schema pointer) = .ok c
          ∧ b = ⟨pointer, d.issues ⟨o.draft, o.validateFormats⟩ c⟩ := by
  unfold bindPointer?
  dsimp only
  cases hresolves : resolveLocal? schema pointer with
  | none => simp
  | some t =>
      cases hdescribes : o.draft.describes (referring schema pointer) with
      | false => simp
      | true =>
          cases hd : Document.ofSchema o.draft (referring schema pointer) with
          | error f => simp
          | ok d =>
              cases hc : Constraint.ofSchema ⟨o.draft, o.validateFormats⟩ d.scope (referring schema pointer) with
              | error reason => simp [hc]
              | ok c => simp [hc, eq_comm]

/-- A bound validator is for the pointer that was asked for. -/
theorem pointer_of_bindPointer? {o : ValidatorOptions} {schema : Json} {pointer : String}
    {b : BoundValidator} (h : bindPointer? o schema pointer = some b) : b.pointer = pointer := by
  obtain ⟨-, -, d, c, -, -, rfl⟩ := bindPointer?_eq_some_iff.mp h
  rfl

/-- **Binding succeeds exactly when all definitions are admitted** and the pointer is fit for a URL.  The
definition that is bound plays no part of its own. -/
theorem bindPointer?_isSome_iff {o : ValidatorOptions} {entries : Json.Members} {pointer : String}
    (hresolves : (resolveLocal? (definitionsSchema entries) pointer).isSome = true) :
    (bindPointer? o (definitionsSchema entries) pointer).isSome = true
      ↔ (∀ e ∈ entries, o.draft.admits e = true)
        ∧ o.draft.allowsValue "$ref" (.str pointer) = true
        ∧ (Document.defaultScope.join pointer).isOk = true := by
  unfold bindPointer?
  simp only [referring_definitionsSchema, Draft.describes_referring]
  rw [Option.isNone_eq_false_iff.mpr hresolves, Bool.false_or]
  by_cases hdescribes : (entries.all fun e => o.draft.describes e.2) = true
  · have hall : ∀ e ∈ entries, o.draft.describes e.2 = true := by simpa using hdescribes
    have hadmits : (∀ e ∈ entries, o.draft.admits e = true)
        ↔ (Document.namedInMembers o.draft Document.defaultScope entries).isOk = true := by
      rw [Document.isOk_namedInMembers, List.all_eq_true]
      refine ⟨fun h e he => ?_, fun h e he => ?_⟩
      · exact (Bool.and_eq_true _ _ ▸ h e he).2
      · unfold Draft.admits
        rw [hall e he, h e he]
        rfl
    rw [hdescribes, Bool.true_and, hadmits, Document.ofSchema_referring hall]
    cases hallows : o.draft.allowsValue "$ref" (.str pointer) with
    | false => simp
    | true =>
        cases hnamed : Document.namedInMembers o.draft Document.defaultScope entries with
        | error f => simp [Except.map, Except.isOk, Except.toBool]
        | ok named =>
            have hconstraint : Constraint.ofSchema ⟨o.draft, o.validateFormats⟩ Document.defaultScope
                (.obj [(definitionsKey, .obj entries), ("$ref", .str pointer)])
                = ((Document.defaultScope.join pointer).map Constraint.reference).mapError
                    Url.Fault.message := by
              have hget : Json.Members.get?
                  [(definitionsKey, .obj entries), ("$ref", .str pointer)] "$ref"
                  = some (.str pointer) := by
                simp [Json.Members.get?, List.lookup_cons, definitionsKey]
              rw [Constraint.ofSchema, Document.enter, schemaId?_wrapper]
              simp only [hget]
              cases Document.defaultScope.join pointer <;> rfl
            simp only [Except.map, hconstraint]
            cases Document.defaultScope.join pointer <;>
              simp [Except.mapError, Except.isOk, Except.toBool]
  · have hnot : ¬ ∀ e ∈ entries, o.draft.admits e = true := by
      intro h
      apply hdescribes
      rw [List.all_eq_true]
      exact fun e he => (Bool.and_eq_true _ _ ▸ h e he).1
    rw [Bool.eq_false_iff.mpr hdescribes]
    exact ⟨fun h => absurd h (by simp), fun h => absurd h.1 hnot⟩

end ValidatorCompiler

end DecoderForge
