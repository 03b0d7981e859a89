import DecoderForge.Proofs.Result
import DecoderForge.Proofs.Validation.Binding
import DecoderForge.Proofs.Validation.LocalReference

/-!
# DecoderForge — the wrapper around a bound definition

A validator is bound to a wrapper: the schema with a reference to the definition in place of its own demands.
The identifiers in the wrapper are those in the schema, and every reference leads to the same place in both,
but for `#`, and for the reference to the text of the new reference.

## The architecture

* **`Document.wrapped`** — the document in which a validator is bound.
* **`ValidatorCompiler.bindPointer?_eq_some`** — a bound validator is the reference in the wrapper.
* **`Document.atPointer_wrapper`**, **`resolveLocal?_wrapper`** — pointers and references in the wrapper.
-/

namespace DecoderForge

/-! ## The document -/

theorem schemaId?_definitionsSchema (draft : Draft) (entries : Json.Members) :
    schemaId? draft (definitionsSchema entries) = none := by
  cases draft <;>
    simp [schemaId?, definitionsSchema, Json.getString?, Json.get?, Json.Members.get?, List.lookup_cons, Draft.idKey,
      definitionsKey]

/-- **The identifiers of a schema of definitions** are those of its definitions. -/
theorem Document.ofSchema_definitionsSchema {draft : Draft} {entries : Json.Members}
    (h : ∀ e ∈ entries, draft.describes e.2 = true) :
    ofSchema draft (definitionsSchema entries)
      = (namedInMembers draft defaultScope entries).map fun named =>
          ⟨draft, definitionsSchema entries, defaultScope, named⟩ := by
  have hkey : (definitionsKey == "enum" || definitionsKey == "const") = false := by decide
  have hnamed : namedSchemas draft defaultScope (definitionsSchema entries)
      = (namedInMembers draft defaultScope entries).map (· ++ []) := by
    unfold definitionsSchema
    rw [namedSchemas, ← definitionsSchema, schemaId?_definitionsSchema]
    dsimp only
    rw [namedInMembers, hkey, namedSchemas, schemaId?_of_describes h]
    simp only [Bool.false_eq_true, if_false]
    rw [namedInMembers]
    cases namedInMembers draft defaultScope entries <;> rfl
  unfold ofSchema
  rw [schemaId?_definitionsSchema]
  simp only [bind, Except.bind, hnamed]
  cases namedInMembers draft defaultScope entries with
  | error f => rfl
  | ok named => simp [Except.map, pure, Except.pure]

/-- The document in which a validator is bound. -/
def Document.wrapped (d : Document) (pointer : String) : Document :=
  { d with root := ValidatorCompiler.referring d.root pointer }

namespace ValidatorCompiler

/-- **A bound validator is the reference in the wrapper**, which has the identifiers of the schema. -/
theorem bindPointer?_eq_some {o : ValidatorOptions} {entries : Json.Members} {pointer : String} {b : BoundValidator}
    (h : bindPointer? o (definitionsSchema entries) pointer = some b) :
    ∃ d url, Document.ofSchema o.draft (definitionsSchema entries) = .ok d ∧ d.root = definitionsSchema entries
      ∧ d.draft = o.draft ∧ Document.defaultScope.join pointer = .ok url
      ∧ b.issues = (d.wrapped pointer).issues ⟨o.draft, o.validateFormats⟩ (.reference url) := by
  obtain ⟨-, hfit, d, c, hd, hc, rfl⟩ := bindPointer?_eq_some_iff.mp h
  rw [referring_definitionsSchema] at hfit hd hc
  rw [Draft.describes_referring, Bool.and_eq_true, List.all_eq_true] at hfit
  -- the wrapper is well formed, so each definition is, and none of them is an identifier
  rw [Document.ofSchema_referring hfit.1] at hd
  rw [Document.ofSchema_definitionsSchema hfit.1]
  obtain ⟨named, hnamed, rfl⟩ := map_eq_ok hd
  have hget : Json.Members.get? [(definitionsKey, .obj entries), ("$ref", .str pointer)] "$ref"
      = some (.str pointer) := by
    simp [Json.Members.get?, List.lookup_cons, definitionsKey]
  rw [Constraint.ofSchema, Document.enter, schemaId?_wrapper] at hc
  simp only [hget] at hc
  cases hurl : Document.defaultScope.join pointer with
  | error f => exact absurd hc (by simp [hurl])
  | ok url =>
      simp only [hurl] at hc
      obtain rfl := Except.ok.inj hc
      refine ⟨_, url, by rw [hnamed]; rfl, rfl, rfl, rfl, ?_⟩
      rw [Document.wrapped, referring_definitionsSchema]

end ValidatorCompiler

section Wrapper

variable (entries : Json.Members) (pointer : String)

/-! ## What is written -/

theorem references_subset_wrapper : (definitionsSchema entries).references
    ⊆ (ValidatorCompiler.referring (definitionsSchema entries) pointer).references := by
  rw [ValidatorCompiler.referring_definitionsSchema]
  unfold definitionsSchema
  simp [Json.references, Json.referencesOfMembers, definitionsKey]

theorem texts_subset_wrapper : (definitionsSchema entries).texts
    ⊆ (ValidatorCompiler.referring (definitionsSchema entries) pointer).texts := by
  rw [ValidatorCompiler.referring_definitionsSchema]
  unfold definitionsSchema
  simp [Json.texts, Json.textsOfMembers]

/-! ## Pointers -/

/-- A step down the wrapper is a step down the schema, or leads to the new reference. -/
theorem child?_wrapper (token : List Char) :
    (ValidatorCompiler.referring (definitionsSchema entries) pointer).child? token
        = (definitionsSchema entries).child? token
      ∨ (definitionsSchema entries).child? token = none
        ∧ (ValidatorCompiler.referring (definitionsSchema entries) pointer).child? token = some (.str pointer) := by
  rw [ValidatorCompiler.referring_definitionsSchema]
  unfold definitionsSchema Json.child?
  simp only [Json.Members.get?, List.lookup_cons, List.lookup_nil]
  cases String.ofList token == definitionsKey with
  | true => exact Or.inl rfl
  | false =>
      cases String.ofList token == "$ref" with
      | true => exact Or.inr ⟨rfl, rfl⟩
      | false => exact Or.inl rfl

/-- **A pointer leads to the same place in the wrapper**, or to the new reference. -/
theorem Document.atPointer_wrapper (draft : Draft) (p : List Char) :
    atPointer draft (ValidatorCompiler.referring (definitionsSchema entries) pointer) p
        = atPointer draft (definitionsSchema entries) p
      ∨ atPointer draft (definitionsSchema entries) p = none
        ∧ atPointer draft (ValidatorCompiler.referring (definitionsSchema entries) pointer) p
          = some ([], .str pointer) := by
  have hid : schemaId? draft (ValidatorCompiler.referring (definitionsSchema entries) pointer) = none := by
    rw [ValidatorCompiler.referring_definitionsSchema]
    exact schemaId?_wrapper draft entries pointer
  unfold atPointer
  split
  · next rest =>
      cases htokens : (Text.splitAt '/' rest).map Pointer.unescapeToken with
      | nil => exact absurd (List.map_eq_nil_iff.mp htokens) (Text.splitAt_ne_nil '/' rest)
      | cons token tokens =>
          rw [descend, descend, hid, schemaId?_definitionsSchema]
          rcases child?_wrapper entries pointer token with heq | ⟨hnone, hsome⟩
          · exact Or.inl (by rw [heq])
          · rw [hnone, hsome]
            cases tokens with
            | nil => exact Or.inr ⟨rfl, rfl⟩
            | cons next tokens => exact Or.inl rfl
  · exact Or.inl rfl

/-- **A reference leads to the same place in the wrapper**, or to the new reference, unless it is `#`. -/
theorem resolveLocal?_wrapper {r : String} (hr : r ≠ "#") :
    resolveLocal? (ValidatorCompiler.referring (definitionsSchema entries) pointer) r
        = resolveLocal? (definitionsSchema entries) r
      ∨ resolveLocal? (definitionsSchema entries) r = none
        ∧ resolveLocal? (ValidatorCompiler.referring (definitionsSchema entries) pointer) r = some (.str pointer) := by
  unfold resolveLocal?
  split
  · next fragment hchars =>
      cases hpointer : Pointer.unescapeFragment? fragment with
      | none => exact Or.inl rfl
      | some p =>
          have hp : p ≠ [] := by
            rintro rfl
            obtain rfl := Pointer.eq_nil_of_unescapeFragment? hpointer
            exact hr (String.ext (by rw [hchars]; rfl))
          -- the draft only says which members hold identifiers
          have hmap := fun j => Document.map_snd_atPointer .draft7 j hp
          simp only [Option.bind_some, ← hmap]
          rcases Document.atPointer_wrapper entries pointer .draft7 p with heq | ⟨hnone, hsome⟩
          · exact Or.inl (by rw [heq])
          · exact Or.inr ⟨by rw [hnone]; rfl, by rw [hsome]; rfl⟩
  · exact Or.inl rfl

end Wrapper

end DecoderForge
