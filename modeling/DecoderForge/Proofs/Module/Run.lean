import DecoderForge.Proofs.Generation.Steps
import DecoderForge.Proofs.Module.Acceptance
import DecoderForge.Proofs.Plan.Degradation

/-!
# DecoderForge — runs that fail because of the layout

A run can fail at every step, but for its layout only at one: where the assembled module is laid out.

## The architecture

* **`rejected_of_generate`** — a run that does has a module that the formatter rejects.
* **`formatter_accepts_iff`** — when the module is accepted, and that no run fails then.
-/

namespace DecoderForge

open Layout

/-! ## Runs -/

/-- **A run that fails because of the layout has a module that the formatter rejects.** -/
theorem rejected_of_generate {o : GenerateOptions} (hname : o.decoderName = none) {mode : WriteMode}
    {schema : Json} {output reason : String} {d d' : Disk}
    (h : generate (.builtIn o) o mode schema output d = (.error (.formatter reason), d')) :
    ∃ p text folder, Plan.ofSchema (.builtIn o.validator) o schema = .ok p
      ∧ (TypeCompiler.builtIn o.naming o.collision).block p.definitions o.style = .ok text
      ∧ (format (p.moduleFor o folder text).assemble o.style).isOk = false := by
  cases failure_of_generate h with
  | planning hplan => exact nomatch Plan.schemaError_of_ofSchema hplan
  | folder hfolder =>
      rcases prepareOutput_eq_error hfolder with ⟨he, -⟩ | ⟨fault, he⟩ <;> exact absurd he (by simp)
  | types hplan hfolder htypes =>
      obtain ⟨_, he⟩ := TypeCompiler.eq_typeCompiler_of_block htypes
      exact absurd he (by simp)
  | @layout p d₁ text _ hplan hfolder htext hlaid =>
      refine ⟨p, text, d₁.folderName output.toList, hplan, htext, ?_⟩
      -- what is laid out is the module of the plan, as the registry is named for the folder
      have hregistry : registryName o output d₁ = o.naming.registryClass (d₁.folderName output.toList) := by
        unfold registryName
        rw [hname]
      have hsource : (p.moduleNamed o (registryName o output d₁) text).assemble
          = (p.moduleFor o (d₁.folderName output.toList) text).assemble := by
        rw [hregistry]
        rfl
      rw [hsource] at hlaid
      generalize (p.moduleFor o (d₁.folderName output.toList) text).assemble = source at hlaid ⊢
      have hformatter : (Collaborators.builtIn o).formatter source o.style
          = (format source o.style).mapError fun f => f.message := rfl
      rw [hformatter] at hlaid
      cases hformat : format source o.style with
      | error f => rfl
      | ok laid =>
          rw [hformat] at hlaid
          exact absurd hlaid (by simp [Except.mapError])

/-- **When the formatter accepts a generated module.**  A module is accepted exactly when each of its
declarations is accepted alone; type hints copied into it from below the definitions have to be level.
Without such hints it is accepted in any case if every text of the definitions has as many opening as
closing parentheses, and then no run fails because of the layout. -/
theorem formatter_accepts_iff {o : GenerateOptions} (hname : o.decoderName = none) {schema : Json} {p : Plan}
    (hplan : Plan.ofSchema (.builtIn o.validator) o schema = .ok p) {text : String}
    (hblock : (TypeCompiler.builtIn o.naming o.collision).block p.definitions o.style = .ok text)
    (hhints : ∀ t, p.ReadsBelow o.style t → ∀ h, t.getString? typeHintKey = some h → Level h.toList) :
    (∀ folder ds, Types.compile o.naming o.collision { style := o.style } TypeCompiler.containerName p.schema
        = .ok ds →
      ((format (p.moduleFor o folder text).assemble o.style).isOk = true
        ↔ ∀ d ∈ ds, d.name ≠ TypeCompiler.containerName →
          (format (d.source o.style) o.style).isOk = true))
    ∧ ((∀ t, p.ReadsBelow o.style t → t.getString? typeHintKey = none) →
        (∀ s ∈ p.schema.texts, Types.Even s.toList) →
        (∀ folder, (format (p.moduleFor o folder text).assemble o.style).isOk = true)
          ∧ ∀ mode output d reason d',
            generate (.builtIn o) o mode schema output d ≠ (.error (.formatter reason), d')) := by
  have haccepts := Plan.format_moduleFor_isOk_iff hplan hblock hhints
  refine ⟨fun folder => (haccepts folder).1, fun hnone heven => ?_⟩
  have hall : ∀ folder, (format (p.moduleFor o folder text).assemble o.style).isOk = true :=
    fun folder => (haccepts folder).2 hnone heven
  refine ⟨hall, fun mode output d reason d' h => ?_⟩
  obtain ⟨p', text', folder, hplan', hblock', hrejected⟩ := rejected_of_generate hname h
  obtain rfl := Except.ok.inj (hplan.symm.trans hplan')
  obtain rfl := Except.ok.inj (hblock.symm.trans hblock')
  rw [hall folder] at hrejected
  exact absurd hrejected (by decide)

/-! ## Descriptions with a single parenthesis -/

/-- A string with a description. -/
def described (description : String) : Json :=
  .obj [("type", .str "string"), ("description", .str description)]

/-- Null, or an object whose only member has a description. -/
def nullableWith (description : String) : Json :=
  .obj [("type", .arr [.str "null", .str "object"]), ("additionalProperties", .bool false),
    ("properties", .obj [("a", described description)])]

/-- Two such objects at once, one level deeper than need be. -/
def nestedWith (first second : String) : Definition :=
  ⟨"A", "A", .obj [("allOf", .arr [.obj [("allOf", .arr [nullableWith first, nullableWith second])]])]⟩

/-- The type of such an object, given the comment of its member. -/
def nullableType (doc : Option (List (List Char))) : TypeExpr :=
  .union {} [.ofString "null", .object [(⟨doc, "a", true⟩, .ofString "string")] none]

/-- The type of two of them, given the comments. -/
def nestedType (first second : Option (List (List Char))) : TypeExpr :=
  let inner := [nullableType first, nullableType second].map (TypeExpr.parenthesize {})
  Types.meetOf {} [(Types.meetOf {} inner).parenthesize {}]

/-- The plan for that definition alone. -/
def nestedPlan (first second : String) : Plan :=
  let d := nestedWith first second
  ⟨⟨[(d.key, d.schema)], by simp⟩, [Plan.plannedIn [(d.key, d.schema)] d]⟩

/-- The text of its declaration. -/
def nestedText (first second : String) : String :=
  String.ofList ((Types.Body.alias (nestedType (Types.docLines? (described first))
    (Types.docLines? (described second)))).text {} "A".toList)

/-- With even descriptions the module is accepted. -/
theorem formatter_accepts_even_descriptions :
    Plan.ofSchema (.builtIn {}) {} (nestedPlan "(a)" "b").schema = .ok (nestedPlan "(a)" "b")
      ∧ (TypeCompiler.builtIn {} .error).block (nestedPlan "(a)" "b").definitions {}
          = .ok (nestedText "(a)" "b")
      ∧ (format ((nestedPlan "(a)" "b").moduleFor {} "out" (nestedText "(a)" "b")).assemble {}).isOk
          = true := by
  have hplan : Plan.ofSchema (.builtIn {}) {} (nestedPlan "(a)" "b").schema = .ok (nestedPlan "(a)" "b") :=
    rfl
  have hblock : (TypeCompiler.builtIn {} .error).block (nestedPlan "(a)" "b").definitions {}
      = .ok (nestedText "(a)" "b") := rfl
  have hnone : ∀ t, (nestedPlan "(a)" "b").ReadsBelow {} t → t.getString? typeHintKey = none :=
    fun t => Plan.hint_eq_none_of_texts (by decide +kernel)
  have hhints : ∀ t, (nestedPlan "(a)" "b").ReadsBelow {} t →
      ∀ h, t.getString? typeHintKey = some h → Level h.toList := by
    intro t ht h hhint
    rw [hnone t ht] at hhint
    exact absurd hhint (by simp)
  have haccepts := (formatter_accepts_iff (o := {}) rfl hplan hblock hhints).2 hnone (by decide +kernel)
  exact ⟨hplan, hblock, haccepts.1 "out"⟩

/-- Two descriptions with one parenthesis each, of either kind: no schema carries a type hint, the types are
compiled, and the formatter rejects the module.  The operator between the two objects is not seen, as a
comment seems to leave a parenthesis open, and then the parentheses around the first and the last are
taken for one pair. -/
theorem formatter_rejects_uneven_descriptions :
    Plan.ofSchema (.builtIn {}) {} (nestedPlan "(" ")").schema = .ok (nestedPlan "(" ")")
      ∧ (TypeCompiler.builtIn {} .error).block (nestedPlan "(" ")").definitions {}
          = .ok (nestedText "(" ")")
      ∧ typeHintKey ∉ (nestedPlan "(" ")").schema.texts
      ∧ (format ((nestedPlan "(" ")").moduleFor {} "out" (nestedText "(" ")")).assemble {}).isOk
          = false := by
  have hplan : Plan.ofSchema (.builtIn {}) {} (nestedPlan "(" ")").schema = .ok (nestedPlan "(" ")") := rfl
  refine ⟨hplan, rfl, by decide +kernel, ?_⟩
  have htext : (nestedText "(" ")").toList
      = (Types.Body.alias (nestedType (some [['(']]) (some [[')']]))).text {} "A".toList := by
    unfold nestedText
    rw [String.toList_ofList, Types.docLines?_of_plain rfl (by decide : _ = ['(']) rfl (by decide),
      Types.docLines?_of_plain rfl (by decide : _ = [')']) rfl (by decide)]
    rfl
  have hlex : Lexes .code (nestedText "(" ")").toList .code ['{', '}', ')', '(', '{', '}'] := by
    rw [htext]
    unfold Lexes
    decide +kernel
  have hmodule := Module.format_assemble_isOk_iff
    (Plan.ordinary_moduleFor hplan "out" (nestedText "(" ")")) hlex (by decide) {}
  rw [Bool.eq_false_iff]
  exact fun h => absurd (hmodule.mp h) (by simp [settle, isOpener, Scanner.opener])

end DecoderForge
