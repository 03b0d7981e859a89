import DecoderForge.Proofs.Plan.Artifacts
import DecoderForge.Proofs.Schema.Reference
import DecoderForge.Proofs.Standalone.Agreement
import DecoderForge.Proofs.Validation.Binding

/-!
# DecoderForge — what makes a definition degrade

A definition gets a compiled validator where one can be bound and written as a module.  Writing depends on
the definition and what it refers to; binding depends on every definition of the schema.  Hence a plan
for some definitions and a plan for more of them agree on the modules that both have, and the larger plan
has modules only when all its definitions can be bound.

## The architecture

* **`sameBelow_of_sublist`** — a schema and a part of it that is closed under references agree on all
  that the part reaches.
* **`Plan.sourceOf?_builtIn`** — the module of a definition: bound and written.
* **`Plan.strategy_eq_iff`** — when two plans treat a definition alike.
-/

namespace DecoderForge

/-! ## A schema and a part of it -/

/-- Of the members of a list with different names, those of a part are found alike in both. -/
theorem Json.get?_of_sublist {members members' : Json.Members}
    (hnodup : (members.map Prod.fst).Nodup) (hsub : List.Sublist members' members) {name : String}
    (hname : name ∈ members'.map Prod.fst) :
    members.get? name = members'.get? name := by
  obtain ⟨⟨k, v⟩, hmem, rfl⟩ := List.mem_map.mp hname
  have hnodup' : (members'.map Prod.fst).Nodup := (hsub.map Prod.fst).nodup hnodup
  rw [Json.get?_of_mem hnodup (hsub.subset hmem), Json.get?_of_mem hnodup' hmem]

/-- The references of a part are a part of the references. -/
theorem Json.referencesOfMembers_sublist {members members' : Json.Members}
    (h : List.Sublist members' members) :
    List.Sublist (Json.referencesOfMembers members') (Json.referencesOfMembers members) := by
  induction h with
  | slnil => exact List.Sublist.refl _
  | cons m _ ih =>
      rw [Json.referencesOfMembers.eq_def (m :: _)]
      exact ih.trans (List.sublist_append_right _ _)
  | cons_cons m _ ih =>
      rw [Json.referencesOfMembers.eq_def (m :: _), Json.referencesOfMembers.eq_def (m :: _)]
      exact (List.Sublist.refl _).append ih

/-- The references of a schema of definitions are those of the definitions. -/
theorem references_definitionsSchema (entries : Json.Members) :
    (definitionsSchema entries).references = Json.referencesOfMembers entries := by
  have hne : definitionsKey ≠ "$ref" := by decide
  unfold definitionsSchema
  rw [Json.references, Json.referencesOfMembers.eq_def]
  simp [Json.references, Json.referencesOfMembers, hne]

/-- The definitions of a schema of definitions. -/
theorem get?_definitionsSchema (entries : Json.Members) :
    (definitionsSchema entries).get? definitionsKey = some (.obj entries) := by
  simp [definitionsSchema, Json.get?, Json.Members.get?]

/-- Every reference inside some definitions is the pointer of one of them. -/
def ClosedUnderReferences (entries : Json.Members) : Prop :=
  ∀ r ∈ Json.referencesOfMembers entries, ∃ key ∈ entries.map Prod.fst, r = definitionPointer key

/-- **A schema and a closed part of it agree on all that the part reaches.** -/
theorem sameBelow_of_sublist {entries entries' : Json.Members}
    (hnodup : (entries.map Prod.fst).Nodup) (hsub : List.Sublist entries' entries)
    (hclosed : ClosedUnderReferences entries') {key : String} (hkey : key ∈ entries'.map Prod.fst) :
    Standalone.SameBelow (definitionPointer key :: Json.referencesOfMembers entries')
      (definitionsSchema entries) (definitionsSchema entries') := by
  have hpointer : ∀ r ∈ definitionPointer key :: Json.referencesOfMembers entries',
      ∃ k ∈ entries'.map Prod.fst, r = definitionPointer k := by
    intro r hr
    rcases List.mem_cons.mp hr with rfl | hr
    · exact ⟨key, hkey, rfl⟩
    · exact hclosed r hr
  refine ⟨fun r hr => ?_, fun r hr target htarget => ?_⟩
  · obtain ⟨k, hk, rfl⟩ := hpointer r hr
    rw [resolveLocal?_definitionPointer (get?_definitionsSchema entries),
      resolveLocal?_definitionPointer (get?_definitionsSchema entries'),
      Json.get?_of_sublist hnodup hsub hk]
  · obtain ⟨k, hk, rfl⟩ := hpointer r hr
    rw [resolveLocal?_definitionPointer (get?_definitionsSchema entries),
      Json.get?_of_sublist hnodup hsub hk] at htarget
    exact List.Subset.trans (Json.references_subset_members (Json.mem_of_get? htarget))
      (List.subset_cons_self _ _)

/-! ## Strategies -/

namespace PlannedDecoder

/-- The file of a definition holds its module. -/
theorem content_pendingFile? (d : PlannedDecoder) :
    d.pendingFile?.map PendingFile.content = d.source := by
  unfold pendingFile?
  cases d.source <;> rfl

end PlannedDecoder

namespace Plan

/-- The module of a definition: its validator is bound and can be written. -/
theorem sourceOf?_builtIn (o : ValidatorOptions) (schema : Json) (d : Definition) :
    sourceOf? (.builtIn o) .pack schema d
      = if (ValidatorCompiler.bindPointer? o schema (definitionPointer d.key)).isSome then
          (Standalone.source schema o.validateFormats (definitionPointer d.key)).toOption
        else none := by
  unfold sourceOf? ValidatorCompiler.builtIn Definition.pointer
  simp only
  cases hbind : ValidatorCompiler.bindPointer? o schema (definitionPointer d.key) with
  | none => simp
  | some b =>
      rw [Option.bind_some, ValidatorCompiler.pointer_of_bindPointer? hbind, Option.isSome_some,
        if_pos rfl]
      cases Standalone.source schema o.validateFormats (definitionPointer d.key) with
      | error f => simp [Except.mapError, Except.toOption]
      | ok text => simp [Except.mapError, Except.toOption]

/-- A plan for definitions has one decoder for each, with the module that can be had. -/
theorem mem_planned {compiler : ValidatorCompiler} {o : GenerateOptions} {entries : Json.Members}
    {p : Plan} (h : ofSchema compiler o (definitionsSchema entries) = .ok p) {d : PlannedDecoder}
    (hd : d ∈ p.planned) :
    d.definition.key ∈ entries.map Prod.fst
      ∧ d.source = sourceOf? compiler o.mode (definitionsSchema entries) d.definition := by
  obtain ⟨named, hdefinitions, hnamed, hplanned⟩ := ofSchema_eq_ok_iff.mp h
  have hentries : p.definitions.entries = entries := by
    unfold Definitions.ofSchema at hdefinitions
    rw [get?_definitionsSchema] at hdefinitions
    cases entries with
    | nil => exact absurd hdefinitions (by simp)
    | cons m rest => exact congrArg Definitions.entries (Except.ok.inj hdefinitions).symm
  rw [hplanned] at hd
  obtain ⟨n, hn, rfl⟩ := List.mem_map.mp hd
  refine ⟨?_, by rw [Plan.schema, Definitions.toSchema, hentries]; rfl⟩
  rw [← hentries, ← Definitions.entries_of_enumerate hnamed, List.map_map]
  exact List.mem_map_of_mem (f := fun d : Definition => d.key) hn

/-- **When a plan treats a definition as the plan for a part of the definitions does.**  The part is closed
under references, so that both would write the same module; but the larger plan binds nothing unless
every definition is admitted, those that the part does not refer to included. -/
theorem strategy_eq_iff {o : GenerateOptions} (hmode : o.mode = .pack)
    {entries entries' : Json.Members} (hnodup : (entries.map Prod.fst).Nodup)
    (hsub : List.Sublist entries' entries) (hclosed : ClosedUnderReferences entries') {p p' : Plan}
    (hp : ofSchema (.builtIn o.validator) o (definitionsSchema entries) = .ok p)
    (hp' : ofSchema (.builtIn o.validator) o (definitionsSchema entries') = .ok p')
    {d d' : PlannedDecoder} (hd : d ∈ p.planned) (hd' : d' ∈ p'.planned)
    (hkey : d.definition.key = d'.definition.key) :
    (d.entry.isPointerLookup = d'.entry.isPointerLookup
        ∧ d.pendingFile?.map PendingFile.content = d'.pendingFile?.map PendingFile.content)
      ↔ d'.entry.isPointerLookup = true
        ∨ ∀ e ∈ entries, o.validator.draft.admits e = true := by
  rw [PlannedDecoder.isPointerLookup_entry, PlannedDecoder.isPointerLookup_entry,
    PlannedDecoder.content_pendingFile?, PlannedDecoder.content_pendingFile?]
  obtain ⟨hmem, hsource⟩ := mem_planned hp hd
  obtain ⟨hmem', hsource'⟩ := mem_planned hp' hd'
  rw [hmode, sourceOf?_builtIn] at hsource hsource'
  rw [hkey] at hsource
  generalize d'.definition.key = key at *
  -- both would write the same module
  have hlength : (Json.referencesOfMembers entries').length
      ≤ (Json.referencesOfMembers entries).length :=
    (Json.referencesOfMembers_sublist hsub).length_le
  have hmodule := Standalone.source_eq_of_sameBelow
    (sameBelow_of_sublist hnodup hsub hclosed hmem') List.mem_cons_self
    (by rw [references_definitionsSchema, List.length_cons]; omega)
    (Nat.le_of_eq (by rw [references_definitionsSchema, List.length_cons])) o.validator.validateFormats
  rw [hmodule] at hsource
  -- both can look the definition up
  have hresolves : ∀ {l : Json.Members}, key ∈ l.map Prod.fst →
      (resolveLocal? (definitionsSchema l) (definitionPointer key)).isSome = true := by
    intro l hl
    rw [resolveLocal?_definitionPointer (get?_definitionsSchema l)]
    obtain ⟨e, he, rfl⟩ := List.mem_map.mp hl
    exact List.lookup_isSome_iff.mpr ⟨e, he, by simp⟩
  have hbind := ValidatorCompiler.bindPointer?_isSome_iff (o := o.validator)
    (hresolves ((hsub.map Prod.fst).subset hmem'))
  have hbind' := ValidatorCompiler.bindPointer?_isSome_iff (o := o.validator) (hresolves hmem')
  by_cases hbound' : (ValidatorCompiler.bindPointer? o.validator (definitionsSchema entries')
      (definitionPointer key)).isSome = true
  · rw [if_pos hbound'] at hsource'
    by_cases hadmits : ∀ e ∈ entries, o.validator.draft.admits e = true
    · rw [if_pos (hbind.mpr ⟨hadmits, (hbind'.mp hbound').2⟩), ← hsource'] at hsource
      rw [hsource]
      exact ⟨fun _ => Or.inr hadmits, fun _ => ⟨rfl, rfl⟩⟩
    · rw [if_neg fun h => hadmits (hbind.mp h).1] at hsource
      rw [hsource]
      constructor
      · rintro ⟨-, h⟩
        exact Or.inl (by rw [← h]; rfl)
      · rintro (h | h)
        · rw [Option.isNone_iff_eq_none.mp h]
          exact ⟨rfl, rfl⟩
        · exact absurd h hadmits
  · rw [if_neg hbound'] at hsource'
    have hbound : ¬ (ValidatorCompiler.bindPointer? o.validator (definitionsSchema entries)
        (definitionPointer key)).isSome = true := by
      intro h
      obtain ⟨hadmits, hfit⟩ := hbind.mp h
      exact hbound' (hbind'.mpr ⟨fun e he => hadmits e (hsub.subset he), hfit⟩)
    rw [if_neg hbound] at hsource
    rw [hsource, hsource']
    exact ⟨fun _ => Or.inl rfl, fun _ => ⟨rfl, rfl⟩⟩

/-! ## A definition beside a bad one -/

/-- A definition that can be bound. -/
def good : Definition := ⟨"Good", "Good", .obj [("type", .str "string")]⟩

/-- A definition that is no schema. -/
def bad : Definition := ⟨"Bad", "Bad", .obj [("minLength", .str "x")]⟩

/-- The good definition alone. -/
def goodAlone : Json.Members := [(good.key, good.schema)]

/-- Both definitions. -/
def goodAndBad : Json.Members := [(good.key, good.schema), (bad.key, bad.schema)]

/-- A definition planned among others under default options. -/
def plannedIn (entries : Json.Members) (d : Definition) : PlannedDecoder :=
  ⟨d, sourceOf? (.builtIn {}) .pack (definitionsSchema entries) d⟩

/-- The good definition alone gets a validator of its own. -/
theorem isPointerLookup_goodAlone : (plannedIn goodAlone good).entry.isPointerLookup = false := by
  have hbound : (ValidatorCompiler.bindPointer? {} (definitionsSchema goodAlone)
      (definitionPointer good.key)).isSome = true := by
    rw [ValidatorCompiler.bindPointer?_isSome_iff]
    · exact ⟨by decide +kernel, by decide +kernel, by decide +kernel⟩
    · rw [resolveLocal?_definitionPointer (get?_definitionsSchema goodAlone)]
      rfl
  rw [PlannedDecoder.isPointerLookup_entry]
  unfold plannedIn
  rw [sourceOf?_builtIn, if_pos hbound]
  unfold Standalone.source Standalone.link Standalone.linkReference
  rw [resolveLocal?_definitionPointer (get?_definitionsSchema goodAlone)]
  rfl

/-- The bad definition is not admitted. -/
theorem not_admits_goodAndBad : ¬ ∀ e ∈ goodAndBad, Draft.draft7.admits e = true := by
  intro h
  exact absurd (h (bad.key, bad.schema) (by simp [goodAndBad])) (by decide +kernel)

/-- Next to the bad definition the good one is not planned as it is alone. -/
theorem strategy_eq_iff_goodAndBad :
    (goodAndBad.map Prod.fst).Nodup ∧ List.Sublist goodAlone goodAndBad
      ∧ ClosedUnderReferences goodAlone
      ∧ ¬ ((plannedIn goodAndBad good).entry.isPointerLookup
            = (plannedIn goodAlone good).entry.isPointerLookup
          ∧ (plannedIn goodAndBad good).pendingFile?.map PendingFile.content
            = (plannedIn goodAlone good).pendingFile?.map PendingFile.content) := by
  have hnodup : (goodAndBad.map Prod.fst).Nodup := by decide
  have hsub : List.Sublist goodAlone goodAndBad := List.sublist_append_left goodAlone _
  have hclosed : ClosedUnderReferences goodAlone := by
    intro r hr
    simp [goodAlone, good, Json.referencesOfMembers, Json.references] at hr
  have hp : ofSchema (.builtIn {}) {} (definitionsSchema goodAndBad)
      = .ok ⟨⟨goodAndBad, by decide⟩, [plannedIn goodAndBad good, plannedIn goodAndBad bad]⟩ := rfl
  have hp' : ofSchema (.builtIn {}) {} (definitionsSchema goodAlone)
      = .ok ⟨⟨goodAlone, by decide⟩, [plannedIn goodAlone good]⟩ := rfl
  refine ⟨hnodup, hsub, hclosed, ?_⟩
  rw [strategy_eq_iff (o := {}) rfl hnodup hsub hclosed hp hp' List.mem_cons_self
    List.mem_cons_self rfl]
  rintro (h | h)
  · rw [isPointerLookup_goodAlone] at h
    exact absurd h (by decide)
  · exact not_admits_goodAndBad h

/-- The definition with a validator of its own loses it when the bad one is added, which it does not
refer to. -/
theorem good_degrades_beside_bad :
    ofSchema (.builtIn {}) {} (definitionsSchema goodAlone)
        = .ok ⟨⟨goodAlone, by decide⟩, [plannedIn goodAlone good]⟩
      ∧ ofSchema (.builtIn {}) {} (definitionsSchema goodAndBad)
        = .ok ⟨⟨goodAndBad, by decide⟩, [plannedIn goodAndBad good, plannedIn goodAndBad bad]⟩
      ∧ (plannedIn goodAlone good).entry.isPointerLookup = false
      ∧ (plannedIn goodAndBad good).entry.isPointerLookup = true := by
  refine ⟨rfl, rfl, isPointerLookup_goodAlone, ?_⟩
  have hresolves : (resolveLocal? (definitionsSchema goodAndBad)
      (definitionPointer good.key)).isSome = true := by
    rw [resolveLocal?_definitionPointer (get?_definitionsSchema goodAndBad)]
    rfl
  have hunbound : ¬ (ValidatorCompiler.bindPointer? {} (definitionsSchema goodAndBad)
      (definitionPointer good.key)).isSome = true := by
    rw [ValidatorCompiler.bindPointer?_isSome_iff hresolves]
    exact fun h => not_admits_goodAndBad h.1
  rw [PlannedDecoder.isPointerLookup_entry]
  unfold plannedIn
  rw [sourceOf?_builtIn, if_neg hunbound]
  rfl

end Plan

end DecoderForge
