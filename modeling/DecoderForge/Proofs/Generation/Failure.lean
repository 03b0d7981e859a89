import DecoderForge.Proofs.Generation.Steps
import DecoderForge.Proofs.Plan.Degradation
import DecoderForge.Proofs.Schema.Identifiers

/-!
# DecoderForge — what a failed run leaves behind

A run that fails while it plans, or for a file in the place of the output folder, has done nothing yet.
One that fails in the type compiler or in the formatter comes later: the output folder is made by then and
the validators are written, and nothing is undone.

## The architecture

* **`LeftBehind`** — the traces of a run that got as far as its validators.
* **`leftBehind_of_attemptAll`** — folder and validators leave these traces and no others.
* **`generate_failure_effects`** — what a failed run changes, error by error.
* **`validator_left_behind`** — a run that fails in the type compiler and leaves a validator.
-/

namespace DecoderForge

/-! ## Names of files -/

/-- The module is a file in its folder. -/
theorem isFileName_indexFile : Disk.IsFileName indexFile.toList :=
  ⟨by decide, by decide, by decide, by decide⟩

/-- So is a validator, if the name of the definition is plain. -/
theorem isFileName_validatorFile {name : String} (h : ∀ c ∈ name.toList, Layout.isPlain c = true) :
    Disk.IsFileName (validatorFile name).toList := by
  have htext : (validatorFile name).toList = name.toList ++ ".validate.js".toList :=
    String.toList_append
  -- the ending alone is longer than the names that stand for folders
  have hlength : 12 ≤ (validatorFile name).toList.length := by
    rw [htext, List.length_append]
    exact Nat.le_add_left _ _
  have hlong : ∀ s : List Char, s.length < 12 → (validatorFile name).toList ≠ s := by
    rintro s hs rfl
    omega
  refine ⟨hlong [] (by decide), ?_, hlong _ (by decide), hlong _ (by decide)⟩
  rw [htext, List.mem_append, not_or]
  exact ⟨fun hslash => absurd (h '/' hslash) (by decide), by decide⟩

/-- The validators of a plan are files in the output folder, and none of them is the module. -/
theorem Plan.isFileName_of_mem_pending {compiler : ValidatorCompiler} {o : GenerateOptions} {schema : Json}
    {p : Plan} (h : ofSchema compiler o schema = .ok p) {f : PendingFile} (hf : f ∈ p.pending) :
    Disk.IsFileName f.path.toList ∧ f.path ≠ indexFile := by
  obtain ⟨ds, -, hnamed, hplanned⟩ := ofSchema_eq_ok_iff.mp h
  obtain ⟨planned, hmem, hfile⟩ := List.mem_filterMap.mp hf
  rw [hplanned] at hmem
  obtain ⟨d, hd, rfl⟩ := List.mem_map.mp hmem
  obtain ⟨text, -, rfl⟩ := Option.map_eq_some_iff.mp hfile
  exact ⟨isFileName_validatorFile (Definitions.plain_of_enumerate hnamed d hd),
    validatorFile_ne_indexFile d.name⟩

/-! ## Traces -/

/-- The traces of a run that has prepared its output folder and written validators. -/
structure LeftBehind (output : String) (p : Plan) (d d' : Disk) : Prop where
  /-- No folder is gone. -/
  keeps : d.KeepsFolders d'
  /-- A place is new as a folder on the way to the output folder, or it holds a validator of the plan. -/
  changed : ∀ l, d'.entry? l ≠ d.entry? l →
    (d.entry? l = none ∧ d'.entry? l = some .folder ∧ l ∈ d.way output.toList)
      ∨ ∃ f ∈ p.pending, d'.locate (pathIn output f.path).toList = .ok l
          ∧ d'.entry? l = some (.file (Text.encode f.content.toList))
  /-- The module is the file that it was, or none where it was none. -/
  module : ∀ l, d'.locate (pathIn output indexFile).toList = .ok l → ∀ bytes,
    (d'.entry? l = some (.file bytes) ↔ d.entry? l = some (.file bytes))

/-- **Folder and validators leave these traces and no others.** -/
theorem leftBehind_of_attemptAll {compiler : ValidatorCompiler} {o : GenerateOptions} {schema : Json}
    {p : Plan} (hplan : Plan.ofSchema compiler o schema = .ok p) {mode : WriteMode} {output : String}
    {d d₁ : Disk} (hfolder : prepareOutput mode output d = (.ok (), d₁)) :
    LeftBehind output p d (Run.attemptAll mode d₁ (p.pendingIn output)).2 := by
  have hadded : Disk.AddsFolders (· ∈ d.way output.toList) d d₁ := by
    rcases prepareOutput_eq_ok hfolder with rfl | ⟨-, hadded⟩
    · exact .refl _ _
    · exact hadded
  have hfiles := Run.filesWritten_attemptAll mode (p.pendingIn output) d₁
  generalize (Run.attemptAll mode d₁ (p.pendingIn output)).2 = d' at hfiles ⊢
  have hchanged : ∀ l, d'.entry? l ≠ d.entry? l →
      (d.entry? l = none ∧ d'.entry? l = some .folder ∧ l ∈ d.way output.toList)
        ∨ ∃ f ∈ p.pending, d'.locate (pathIn output f.path).toList = .ok l
            ∧ d'.entry? l = some (.file (Text.encode f.content.toList)) := by
    intro l hl
    by_cases hlater : d'.entry? l = d₁.entry? l
    · -- no validator is there, so that the place changed with the folder
      rw [hlater] at hl ⊢
      exact Or.inl (hadded.added l hl)
    · obtain ⟨g, hg, hplace, hcontent⟩ := hfiles.written l hlater
      obtain ⟨f, hf, rfl⟩ := List.mem_map.mp hg
      exact Or.inr ⟨f, hf, hplace, hcontent⟩
  refine ⟨hadded.keepsFolders.trans hfiles.keeps, hchanged, fun l hindex bytes => ?_⟩
  by_cases hsame : d'.entry? l = d.entry? l
  · rw [hsame]
  · rcases hchanged l hsame with ⟨hnone, hnew, -⟩ | ⟨f, hf, hplace, -⟩
    · simp [hnone, hnew]
    · -- no validator is where the module is
      obtain ⟨hname, hother⟩ := Plan.isFileName_of_mem_pending hplan hf
      unfold pathIn at hindex hplace
      rw [String.toList_ofList] at hindex hplace
      exact absurd (String.toList_inj.mp (Disk.file_eq_of_locate_join hname isFileName_indexFile hplace hindex))
        hother

/-- In check mode there are no traces. -/
theorem attemptAll_eq_of_check {output : String} {d d₁ : Disk}
    (hfolder : prepareOutput .check output d = (.ok (), d₁)) (files : List PendingFile) :
    (Run.attemptAll .check d₁ files).2 = d := by
  rw [Run.attemptAll_check]
  rcases prepareOutput_eq_ok hfolder with rfl | ⟨hmode, -⟩
  · rfl
  · exact absurd hmode (by decide)

/-! ## A reference that leads nowhere -/

/-- A definition with a validator of its own. -/
def sound : Definition := ⟨"A", "A", .obj [("type", .str "string")]⟩

/-- A definition without a type. -/
def dangling : Definition := ⟨"B", "B", .obj [("$ref", .str "Nope")]⟩

/-- Both definitions. -/
def soundAndDangling : Json.Members := [(sound.key, sound.schema), (dangling.key, dangling.schema)]

/-- An empty working folder. -/
def workplace : Disk := .withFolder ["box", "work"]

/-- The folder made in it, with one validator. -/
def workplaceWith (text : String) : Disk :=
  (workplace.put ["box", "work", "out"] .folder).put ["box", "work", "out", "A.validate.js"]
    (.file (Text.encode text.toList))

/-- The plan for both definitions. -/
def danglingPlan : Plan :=
  ⟨⟨soundAndDangling, by decide⟩,
    [Plan.plannedIn soundAndDangling sound, Plan.plannedIn soundAndDangling dangling]⟩

/-- The first definition gets a validator, whatever becomes of the second. -/
theorem source_sound : ∃ text, (Plan.plannedIn soundAndDangling sound).source = some text := by
  have hbound : (ValidatorCompiler.bindPointer? {} (definitionsSchema soundAndDangling)
      (definitionPointer sound.key)).isSome = true := by
    rw [ValidatorCompiler.bindPointer?_isSome_iff]
    · exact ⟨by decide, by decide, by decide⟩
    · rw [resolveLocal?_definitionPointer (get?_definitionsSchema soundAndDangling)]
      rfl
  refine Option.isSome_iff_exists.mp ?_
  unfold Plan.plannedIn
  rw [Plan.sourceOf?_builtIn, if_pos hbound]
  unfold Standalone.source Standalone.link Standalone.linkReference
  rw [resolveLocal?_definitionPointer (get?_definitionsSchema soundAndDangling)]
  rfl

/-- The second gets none. -/
theorem source_dangling : (Plan.plannedIn soundAndDangling dangling).source = none := by
  unfold Plan.plannedIn
  rw [Plan.sourceOf?_builtIn]
  split
  · unfold Standalone.source Standalone.link Standalone.linkReference
    rw [resolveLocal?_definitionPointer (get?_definitionsSchema soundAndDangling)]
    rfl
  · rfl

/-- The run into a folder that is not there: its validator is written before the types fail. -/
theorem generate_dangling : ∃ text,
    generate (.builtIn {}) {} .write danglingPlan.schema "out" workplace
      = (.error (.typeCompiler "Unresolved $ref: Nope"), workplaceWith text) := by
  obtain ⟨text, htext⟩ := source_sound
  have hplan : Plan.ofSchema (.builtIn {}) {} danglingPlan.schema = .ok danglingPlan := rfl
  have hfolder : prepareOutput .write "out" workplace
      = (.ok (), workplace.put ["box", "work", "out"] .folder) := rfl
  have hpending : danglingPlan.pendingIn "out" = [⟨"out/A.validate.js", text⟩] := by
    unfold Plan.pendingIn Plan.pending danglingPlan
    simp only [List.filterMap_cons, PlannedDecoder.pendingFile?, htext, source_dangling, Option.map_some,
      Option.map_none, List.filterMap_nil, List.map_cons, List.map_nil]
    rfl
  have hmissing : Run.readExisting "out/A.validate.js" (workplace.put ["box", "work", "out"] .folder)
      = .ok none := rfl
  have hwritten : Run.updated .write "out/A.validate.js" text (workplace.put ["box", "work", "out"] .folder)
      = .ok (.written, workplaceWith text) := by
    unfold Run.updated
    rw [hmissing]
    rfl
  have hbatch : Run.updateAll .write (danglingPlan.pendingIn "out")
      (workplace.put ["box", "work", "out"] .folder)
        = (.ok [⟨"out/A.validate.js", .written⟩], workplaceWith text) := by
    rw [Run.updateAll_apply, hpending, Run.attemptAll, hwritten]
    rfl
  have htypes : (TypeCompiler.builtIn {} .error).block danglingPlan.definitions {}
      = .error (.typeCompiler "Unresolved $ref: Nope") := rfl
  exact ⟨text, generate_of_types hplan hfolder hbatch htypes⟩

/-! ## Failed runs -/

/-- **What a failed run changes.**  Unless it fails in the type compiler, in the formatter or in writing, it
changes nothing at all.  In the type compiler or the formatter it fails with the output folder prepared and
the validators written: in check mode this changes nothing either, and else it leaves their traces. -/
theorem generate_failure_effects {c : Collaborators} {o : GenerateOptions} {mode : WriteMode} {schema : Json}
    {output : String} {d d' : Disk} {e : GenerateError}
    (h : generate c o mode schema output d = (.error e, d')) :
    ((∀ path fault, e ≠ .writeFailed path fault) →
        (∀ reason, e ≠ .typeCompiler reason ∧ e ≠ .formatter reason) → d' = d)
      ∧ ∀ reason, e = .typeCompiler reason ∨ e = .formatter reason →
          (mode = .check → d' = d)
            ∧ ∃ p, Plan.ofSchema c.validators o schema = .ok p ∧ LeftBehind output p d d' := by
  -- types and layout fail on the same disk, on which the validators are attempted
  have hlate {p : Plan} {d₁ : Disk} (hplan : Plan.ofSchema c.validators o schema = .ok p)
      (hfolder : prepareOutput mode output d = (.ok (), d₁)) :
      (mode = .check → (Run.attemptAll mode d₁ (p.pendingIn output)).2 = d)
        ∧ ∃ p', Plan.ofSchema c.validators o schema = .ok p'
          ∧ LeftBehind output p' d (Run.attemptAll mode d₁ (p.pendingIn output)).2 := by
    refine ⟨?_, p, hplan, leftBehind_of_attemptAll hplan hfolder⟩
    rintro rfl
    exact attemptAll_eq_of_check hfolder _
  cases failure_of_generate h with
  | planning hplan =>
      refine ⟨fun _ _ => rfl, fun reason he => ?_⟩
      have hschema := Plan.schemaError_of_ofSchema hplan
      rcases he with rfl | rfl <;> exact nomatch hschema
  | folder hfolder =>
      rcases prepareOutput_eq_error hfolder with ⟨rfl, rfl⟩ | ⟨fault, rfl⟩
      · exact ⟨fun _ _ => rfl, fun reason he => absurd he (by simp)⟩
      · exact ⟨fun hwrite => absurd rfl (hwrite output fault), fun reason he => absurd he (by simp)⟩
  | writing path fault =>
      exact ⟨fun hwrite => absurd rfl (hwrite path fault), fun reason he => absurd he (by simp)⟩
  | types hplan hfolder htypes =>
      obtain ⟨reason, rfl⟩ := TypeCompiler.eq_typeCompiler_of_block htypes
      exact ⟨fun _ hother => absurd rfl (hother reason).1, fun _ _ => hlate hplan hfolder⟩
  | @layout _ _ _ reason hplan hfolder htext hlaid =>
      exact ⟨fun _ hother => absurd rfl (hother reason).2, fun _ _ => hlate hplan hfolder⟩

/-- What it leaves are the traces of its plan; a run that fails for a name leaves none. -/
theorem generate_failure_effects_dangling :
    (∃ text, generate (.builtIn {}) {} .write danglingPlan.schema "out" workplace
          = (.error (.typeCompiler "Unresolved $ref: Nope"), workplaceWith text)
        ∧ LeftBehind "out" danglingPlan workplace (workplaceWith text))
      ∧ ∃ d', generate (.builtIn {}) {} .write Definitions.foos.toSchema "out" workplace
          = (.error (.nameCollision "Foo" "foo" "FOO"), d') ∧ d' = workplace := by
  constructor
  · obtain ⟨text, hrun⟩ := generate_dangling
    obtain ⟨-, p, hplan, hleft⟩ := (generate_failure_effects hrun).2 _ (Or.inl rfl)
    obtain rfl : danglingPlan = p :=
      Except.ok.inj ((rfl : Plan.ofSchema (.builtIn {}) {} danglingPlan.schema = _).symm.trans hplan)
    exact ⟨text, hrun, hleft⟩
  · have hrun : generate (.builtIn {}) {} .write Definitions.foos.toSchema "out" workplace
        = (.error (.nameCollision "Foo" "foo" "FOO"), workplace) := rfl
    exact ⟨workplace, hrun, (generate_failure_effects hrun).1 (by simp) (by simp)⟩

/-- The type compiler fails, and where nothing was there are a folder and a file now. -/
theorem validator_left_behind :
    ∃ d' bytes, generate (.builtIn {}) {} .write danglingPlan.schema "out" workplace
          = (.error (.typeCompiler "Unresolved $ref: Nope"), d')
        ∧ workplace.entry? ["box", "work", "out"] = none
        ∧ d'.entry? ["box", "work", "out"] = some .folder
        ∧ workplace.entry? ["box", "work", "out", "A.validate.js"] = none
        ∧ d'.entry? ["box", "work", "out", "A.validate.js"] = some (.file bytes) := by
  obtain ⟨text, hrun⟩ := generate_dangling
  exact ⟨workplaceWith text, Text.encode text.toList, hrun, rfl, rfl, rfl, rfl⟩

end DecoderForge
