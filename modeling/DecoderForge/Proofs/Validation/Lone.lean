import DecoderForge.Proofs.Validation.Wrapper

/-!
# DecoderForge — a definition by itself

The validator of the only definition of a document finds what the schema of the definition finds.

## The architecture

* **`lone`** — a document with one definition.
* **`resolve_lone`** — where the reference in the wrapper leads.
* **`bindPointer?_lone`** — the validator of the definition.
-/

namespace DecoderForge

/-- A document with one definition. -/
def lone (schema : Json) : Json := definitionsSchema [("A", schema)]

/-- The URL of the definition. -/
def loneUrl : Url := { Document.defaultScope with fragment := some "/definitions/A".toList }

/-- The document around the definition when it is bound under a draft. -/
def loneDocument (draft : Draft) (schema : Json) : Document :=
  ⟨draft, ValidatorCompiler.referring (lone schema) (definitionPointer "A"), Document.defaultScope, []⟩

theorem definitionPointer_lone : definitionPointer "A" = "#/definitions/A" := by decide

theorem resolveLocal?_lone (schema : Json) : resolveLocal? (lone schema) (definitionPointer "A") = some schema := by
  unfold lone
  rw [resolveLocal?_definitionPointer (show _ = some (Json.obj [("A", schema)]) from rfl)]
  rfl

/-- The URL leads to the definition. -/
theorem resolve_lone (draft : Draft) (schema : Json) :
    (loneDocument draft schema).resolve loneUrl = .ok (Document.defaultScope, schema) := by
  have hbytes : Document.fragmentBytes (loneUrl.fragment.getD []) = Text.encode "/definitions/A".toList := rfl
  have hdecode : Text.decode (Text.encode "/definitions/A".toList) = .ok "/definitions/A".toList := by
    unfold Text.decode
    rw [Pointer.decode?_encode]
  have hplain : Pointer.unescapeToken "definitions".toList = "definitions".toList
      ∧ Pointer.unescapeToken "A".toList = "A".toList := by
    rw [Pointer.unescapeToken_eq_self_iff, Pointer.unescapeToken_eq_self_iff]
    decide
  have htokens : (Text.splitAt '/' "definitions/A".toList).map Pointer.unescapeToken
      = ["definitions".toList, "A".toList] := by
    rw [show Text.splitAt '/' "definitions/A".toList = ["definitions".toList, "A".toList] from rfl,
      List.map_cons, List.map_cons, List.map_nil, hplain.1, hplain.2]
  have hdown : Document.atPointer draft (loneDocument draft schema).root "/definitions/A".toList
      = some ([], schema) := by
    show Document.descend draft (loneDocument draft schema).root
      ((Text.splitAt '/' "definitions/A".toList).map Pointer.unescapeToken) = _
    rw [htokens]
    -- neither the wrapper nor its map of definitions has an identifier of any draft
    cases draft <;> rfl
  unfold Document.resolve
  rw [hbytes, hdecode]
  have hnamed : (loneDocument draft schema).named.lookup (String.ofList loneUrl.toText) = none := rfl
  have hdocument : (loneDocument draft schema).document? loneUrl.withoutFragment
      = some (loneDocument draft schema).root := rfl
  simp only [Except.mapError, bind, Except.bind, hnamed, hdocument]
  rw [if_neg (by decide)]
  simp only [show (loneDocument draft schema).draft = draft from rfl, hdown]
  rfl

/-- The validator of the definition finds what its schema finds. -/
theorem bindPointer?_lone (o : ValidatorOptions) (schema : Json) {c : Constraint}
    (hdescribes : o.draft.describes (loneDocument o.draft schema).root = true)
    (hnames : Document.ofSchema o.draft (loneDocument o.draft schema).root = .ok (loneDocument o.draft schema))
    (hc : Constraint.ofSchema ⟨o.draft, o.validateFormats⟩ Document.defaultScope schema = .ok c) :
    ∃ b, ValidatorCompiler.bindPointer? o (lone schema) (definitionPointer "A") = some b
      ∧ ∀ v, ∃ follow, b.accepts v = (c.issues follow v "").isEmpty := by
  have hreads : Constraint.ofSchema ⟨o.draft, o.validateFormats⟩ Document.defaultScope
      (loneDocument o.draft schema).root = .ok (.reference loneUrl) := by
    unfold loneDocument
    rw [definitionPointer_lone]
    cases o.draft <;> rfl
  refine ⟨_, ValidatorCompiler.bindPointer?_eq_some_iff.mpr
    ⟨by rw [resolveLocal?_lone]; rfl, hdescribes, _, _, hnames, hreads, rfl⟩, fun v => ?_⟩
  -- the reference around the definition is followed once
  have hlimit : 0 < (loneDocument o.draft schema).followLimit v :=
    Nat.mul_pos (Nat.succ_pos _) (Nat.pow_pos (Nat.succ_pos _))
  obtain ⟨n, hn⟩ := Nat.exists_eq_succ_of_ne_zero hlimit.ne'
  refine ⟨(loneDocument o.draft schema).issuesAt ⟨o.draft, o.validateFormats⟩ n, ?_⟩
  unfold BoundValidator.accepts
  simp only [Document.issues]
  rw [Constraint.issues, hn, Document.issuesAt, resolve_lone]
  simp only [hc]

end DecoderForge
