import DecoderForge.Generation
import DecoderForge.Proofs.Disk.Folders
import DecoderForge.Proofs.Plan.Artifacts
import DecoderForge.Proofs.Schema.Enumeration

/-!
# DecoderForge — the steps of a run

A run is a row of steps, each of which may change the disk and may fail; what a step did before it failed
stays done.

## The architecture

* **`Run.bind_eq_error`** — a failure comes from the first step or from what follows it.
* **`Run.filesWritten_attemptAll`** — what writing several files changes.
* **`prepareOutput_eq_ok`**, **`prepareOutput_eq_error`** — what becomes of the output folder.
* **`failure_of_generate`** — where a run that fails has failed, and what it leaves behind.
* **`generate_eq_ok_iff`** — what a run that succeeds has done.
-/

namespace DecoderForge

namespace Run

/-! ## Steps in general -/

/-- One step and those behind it. -/
theorem bind_apply {α β : Type} (x : Run α) (f : α → Run β) (d : Disk) :
    (x >>= f) d = match x d with
      | (.ok a, d₁) => f a d₁
      | (.error e, d₁) => (.error e, d₁) := by
  show (match x d with | (r, d₁) => (ExceptT.bindCont f r) d₁) = _
  cases x d with
  | mk r d₁ => cases r <;> rfl

/-- Reading the disk first. -/
theorem get_bind_apply {β : Type} (f : Disk → Run β) (d : Disk) : ((get : Run Disk) >>= f) d = f d d := rfl

/-- Exchanging the disk first. -/
theorem set_bind_apply {β : Type} (d₀ : Disk) (f : PUnit → Run β) (d : Disk) :
    ((set d₀ : Run PUnit) >>= f) d = f ⟨⟩ d₀ := rfl

/-- **A failure comes from the first step or from what follows it.** -/
theorem bind_eq_error {α β : Type} {x : Run α} {f : α → Run β} {d d' : Disk} {e : GenerateError}
    (h : (x >>= f) d = (.error e, d')) :
    x d = (.error e, d') ∨ ∃ a d₁, x d = (.ok a, d₁) ∧ f a d₁ = (.error e, d') := by
  rw [bind_apply] at h
  cases hx : x d with
  | mk r d₁ =>
      rw [hx] at h
      cases r with
      | ok a => exact Or.inr ⟨a, d₁, rfl, h⟩
      | error e' =>
          obtain ⟨he, rfl⟩ := Prod.mk.inj h
          exact Or.inl (by rw [Except.error.inj he])

/-- A result comes from the first step and what follows it. -/
theorem bind_eq_ok_iff {α β : Type} {x : Run α} {f : α → Run β} {d d' : Disk} {b : β} :
    (x >>= f) d = (.ok b, d') ↔ ∃ a d₁, x d = (.ok a, d₁) ∧ f a d₁ = (.ok b, d') := by
  rw [bind_apply]
  constructor
  · intro h
    cases hx : x d with
    | mk r d₁ =>
        rw [hx] at h
        cases r with
        | ok a => exact ⟨a, d₁, rfl, h⟩
        | error e => exact absurd (Prod.mk.inj h).1 (by simp)
  · rintro ⟨a, d₁, hx, h⟩
    rw [hx]
    exact h

/-- A result as a step leaves the disk as it is. -/
theorem lift_apply {α : Type} (x : Except GenerateError α) (d : Disk) : (liftM x : Run α) d = (x, d) := by
  cases x <;> rfl

theorem lift_eq_iff {α : Type} {x r : Except GenerateError α} {d d' : Disk} :
    (liftM x : Run α) d = (r, d') ↔ x = r ∧ d = d' := by
  rw [lift_apply, Prod.mk.injEq]

/-! ## One file -/

/-- A file that is not updated cannot be written. -/
theorem eq_writeFailed_of_updated {mode : WriteMode} {path content : String} {d : Disk} {e : GenerateError}
    (h : updated mode path content d = .error e) : ∃ fault, e = .writeFailed path fault := by
  unfold updated at h
  cases hexisting : readExisting path d with
  | error e' =>
      rw [hexisting] at h
      obtain rfl := Except.error.inj h
      -- a file that is missing can be written, any other fault of reading is one of writing
      unfold readExisting at hexisting
      split at hexisting
      · exact absurd hexisting (by simp)
      · exact absurd hexisting (by simp)
      · exact ⟨_, (Except.error.inj hexisting).symm⟩
  | ok existing =>
      simp only [hexisting, bind, Except.bind] at h
      split at h
      · exact absurd h (by simp [pure, Except.pure])
      · cases mode with
        | check => exact absurd h (by simp [pure, Except.pure])
        | write =>
            simp only at h
            split at h
            · exact absurd h (by simp [pure, Except.pure])
            · exact ⟨_, (Except.error.inj h).symm⟩

/-- A file that is updated is written, or the disk stays as it is. -/
theorem updated_eq_ok {mode : WriteMode} {path content : String} {d d' : Disk} {outcome : WriteOutcome}
    (h : updated mode path content d = .ok (outcome, d')) :
    d' = d ∨ mode = .write ∧ d.write path.toList (Text.encode content.toList) = .ok d' := by
  unfold updated at h
  cases hexisting : readExisting path d with
  | error e =>
      rw [hexisting] at h
      exact absurd h (by simp [bind, Except.bind])
  | ok existing =>
      simp only [hexisting, bind, Except.bind] at h
      split at h
      · exact Or.inl (Prod.mk.inj (Except.ok.inj h)).2.symm
      · cases mode with
        | check => exact Or.inl (Prod.mk.inj (Except.ok.inj h)).2.symm
        | write =>
            simp only at h
            split at h
            · next d₁ hwrite =>
              obtain ⟨-, rfl⟩ := Prod.mk.inj (Except.ok.inj h)
              exact Or.inr ⟨rfl, hwrite⟩
            · exact absurd h (by simp [throw, throwThe, MonadExceptOf.throw])

/-- What updating a file does to a disk. -/
theorem update_apply (mode : WriteMode) (path content : String) (d : Disk) :
    update mode path content d = match updated mode path content d with
      | .ok (outcome, d') => (.ok outcome, d')
      | .error e => (.error e, d) := by
  unfold update
  rw [get_bind_apply]
  cases updated mode path content d with
  | error e => rfl
  | ok r => rfl

/-! ## Several files -/

/-- A disk differs from another only where some files are, and there by their contents. -/
structure FilesWritten (files : List PendingFile) (d d' : Disk) : Prop where
  keeps : d.KeepsFolders d'
  written : ∀ l, d'.entry? l ≠ d.entry? l →
    ∃ f ∈ files, d'.locate f.path.toList = .ok l
      ∧ d'.entry? l = some (.file (Text.encode f.content.toList))

theorem FilesWritten.refl (files : List PendingFile) (d : Disk) : FilesWritten files d d :=
  ⟨.refl d, fun _ h => absurd rfl h⟩

/-- One file is written in front of others. -/
theorem FilesWritten.cons {files : List PendingFile} {f : PendingFile} {d d₁ d₂ : Disk}
    (hf : d.write f.path.toList (Text.encode f.content.toList) = .ok d₁) (h : FilesWritten files d₁ d₂) :
    FilesWritten (f :: files) d d₂ := by
  obtain ⟨hslash, l₀, hlocate, hfree, rfl⟩ := Disk.write_eq_ok hf
  have hl₀ : l₀ ≠ [] := by
    rintro rfl
    exact hfree (by simp)
  have hkeeps := (Disk.keepsFolders_put hl₀ (.file (Text.encode f.content.toList)) hfree).trans h.keeps
  refine ⟨hkeeps, fun l hl => ?_⟩
  by_cases hlater : d₂.entry? l = Disk.entry? (d.put l₀ (.file (Text.encode f.content.toList))) l
  · -- the others leave the place as the first has left it
    rw [Disk.entry?_put d hl₀] at hlater
    by_cases heq : l = l₀
    · subst heq
      rw [if_pos rfl] at hlater
      exact ⟨f, List.mem_cons_self, hkeeps.locate hslash hlocate, hlater⟩
    · rw [if_neg heq] at hlater
      exact absurd hlater hl
  · obtain ⟨g, hg, hplace, hcontent⟩ := h.written l hlater
    exact ⟨g, List.mem_cons_of_mem f hg, hplace, hcontent⟩

theorem FilesWritten.mono {files files' : List PendingFile} {d d' : Disk} (h : FilesWritten files d d')
    (hsub : files ⊆ files') : FilesWritten files' d d' := by
  refine ⟨h.keeps, fun l hl => ?_⟩
  obtain ⟨f, hf, hrest⟩ := h.written l hl
  exact ⟨f, hsub hf, hrest⟩

/-- **Writing several files** changes nothing but their places, whichever of them fail. -/
theorem filesWritten_attemptAll (mode : WriteMode) : ∀ (files : List PendingFile) (d : Disk),
    FilesWritten files d (attemptAll mode d files).2
  | [], d => .refl [] d
  | f :: rest, d => by
      rw [attemptAll]
      cases hupdated : updated mode f.path f.content d with
      | error e => exact (filesWritten_attemptAll mode rest d).mono (List.subset_cons_self f rest)
      | ok r =>
          obtain ⟨outcome, d₁⟩ := r
          have ih := filesWritten_attemptAll mode rest d₁
          rcases updated_eq_ok hupdated with rfl | ⟨-, hwrite⟩
          · exact ih.mono (List.subset_cons_self f rest)
          · exact ih.cons hwrite

/-- In check mode nothing is written. -/
theorem attemptAll_check : ∀ (files : List PendingFile) (d : Disk), (attemptAll .check d files).2 = d
  | [], d => rfl
  | f :: rest, d => by
      rw [attemptAll]
      cases hupdated : updated .check f.path f.content d with
      | error e => exact attemptAll_check rest d
      | ok r =>
          obtain ⟨outcome, d₁⟩ := r
          rcases updated_eq_ok hupdated with rfl | ⟨hmode, -⟩
          · exact attemptAll_check rest d₁
          · exact absurd hmode (by decide)

/-- What updating several files does to a disk. -/
theorem updateAll_apply (mode : WriteMode) (files : List PendingFile) (d : Disk) :
    updateAll mode files d = ((attemptAll mode d files).1.mapM id, (attemptAll mode d files).2) := by
  unfold updateAll
  rw [get_bind_apply]
  obtain ⟨results, d₁⟩ := attemptAll mode d files
  simp only [set_bind_apply]
  cases results.mapM id <;> rfl

/-- Of several attempts, each failure is one of them. -/
theorem eq_writeFailed_of_mem_attemptAll {mode : WriteMode} {e : GenerateError} :
    ∀ {files : List PendingFile} {d : Disk}, .error e ∈ (attemptAll mode d files).1 →
      ∃ path fault, e = .writeFailed path fault
  | [], d, h => by simp [attemptAll] at h
  | f :: rest, d, h => by
      rw [attemptAll] at h
      cases hupdated : updated mode f.path f.content d with
      | ok r =>
          rw [hupdated] at h
          rcases List.mem_cons.mp h with h | h
          · exact absurd h (by simp)
          · exact eq_writeFailed_of_mem_attemptAll h
      | error e' =>
          rw [hupdated] at h
          rcases List.mem_cons.mp h with h | h
          · obtain rfl := Except.error.inj h
            exact ⟨f.path, eq_writeFailed_of_updated hupdated⟩
          · exact eq_writeFailed_of_mem_attemptAll h

/-- **The failure of results in order** is the first of them. -/
theorem first_of_mapM_id {α : Type} {e : GenerateError} : ∀ {results : List (Except GenerateError α)},
    results.mapM id = .error e →
      ∃ (values : List α) (after : _), results = values.map .ok ++ .error e :: after
  | [], h => absurd h (by simp [pure, Except.pure])
  | .error e' :: rest, h => by
      rw [List.mapM_cons] at h
      obtain rfl := Except.error.inj h
      exact ⟨[], rest, rfl⟩
  | .ok a :: rest, h => by
      rw [List.mapM_cons] at h
      cases hrest : rest.mapM id with
      | error e' =>
          simp only [id, bind, Except.bind, hrest] at h
          obtain rfl := Except.error.inj h
          obtain ⟨values, after, rfl⟩ := first_of_mapM_id hrest
          exact ⟨a :: values, after, rfl⟩
      | ok as =>
          simp only [id, bind, Except.bind, hrest] at h
          exact absurd h (by simp [pure, Except.pure])

theorem mem_of_mapM_id {α : Type} {e : GenerateError} {results : List (Except GenerateError α)}
    (h : results.mapM id = .error e) : .error e ∈ results := by
  obtain ⟨values, after, rfl⟩ := first_of_mapM_id h
  simp

end Run

/-! ## Planning -/

/-- What can be wrong with a schema: it has no definitions, or one of them gets no identifier. -/
inductive SchemaError : GenerateError → Prop where
  | noDefinitions : SchemaError .noDefinitions
  | invalidName (raw : String) : SchemaError (.invalidName raw)
  | nameCollision (name first second : String) : SchemaError (.nameCollision name first second)

/-- **Planning fails only for the schema.** -/
theorem Plan.schemaError_of_ofSchema {compiler : ValidatorCompiler} {o : GenerateOptions} {schema : Json}
    {e : GenerateError} (h : ofSchema compiler o schema = .error e) : SchemaError e := by
  unfold ofSchema at h
  cases hdefinitions : Definitions.ofSchema schema with
  | error e' =>
      rw [hdefinitions] at h
      obtain rfl := Except.error.inj h
      unfold Definitions.ofSchema at hdefinitions
      split at hdefinitions
      · exact absurd hdefinitions (by simp)
      · obtain rfl := Except.error.inj hdefinitions
        exact .noDefinitions
  | ok definitions =>
      simp only [hdefinitions, bind, Except.bind] at h
      cases hnamed : definitions.enumerate o.naming o.collision with
      | ok named =>
          rw [hnamed] at h
          exact absurd h (by simp [pure, Except.pure])
      | error e' =>
          rw [hnamed] at h
          obtain rfl := Except.error.inj h
          obtain ⟨_, _, _, _, _, _, hrefused⟩ :=
            (Definitions.enumerateFrom_eq_error_iff (Definitions.tracks_nil _ _)).mp hnamed
          cases hrefused with
          | nameless => exact .invalidName _
          | collision => exact .nameCollision _ _ _

/-! ## The output folder -/

/-- What preparing the output folder does to a disk. -/
theorem prepareOutput_apply (mode : WriteMode) (output : String) (d : Disk) :
    prepareOutput mode output d = match d.find? output.toList, mode with
      | some .folder, _ => (.ok (), d)
      | some (.file _), _ => (.error (.notADirectory output), d)
      | none, .check => (.ok (), d)
      | none, .write =>
        match d.attemptFolders output.toList with
        | (none, d₁) => (.ok (), d₁)
        | (some f, d₁) => (.error (.writeFailed output f), d₁) := by
  unfold prepareOutput
  rw [Run.get_bind_apply]
  cases hfound : d.find? output.toList with
  | some entry => cases entry <;> rfl
  | none =>
      cases mode with
      | check => rfl
      | write =>
          simp only
          cases d.attemptFolders output.toList with
          | mk fault d₁ => cases fault <;> rfl

/-- A folder that is there or is made: what is added are folders on the way to it. -/
theorem prepareOutput_eq_ok {mode : WriteMode} {output : String} {d d' : Disk}
    (h : prepareOutput mode output d = (.ok (), d')) :
    d' = d ∨ mode = .write ∧ Disk.AddsFolders (· ∈ d.way output.toList) d d' := by
  rw [prepareOutput_apply] at h
  split at h
  · exact Or.inl (Prod.mk.inj h).2.symm
  · exact absurd (Prod.mk.inj h).1 (by simp)
  · exact Or.inl (Prod.mk.inj h).2.symm
  · have hadded := Disk.addsFolders_attemptFolders d output.toList
    split at h
    · next d₁ hattempt =>
      obtain rfl := (Prod.mk.inj h).2
      rw [hattempt] at hadded
      exact Or.inr ⟨rfl, hadded⟩
    · exact absurd (Prod.mk.inj h).1 (by simp)

/-- A folder that cannot be used: a file stands in its place, or it cannot be made. -/
theorem prepareOutput_eq_error {mode : WriteMode} {output : String} {d d' : Disk} {e : GenerateError}
    (h : prepareOutput mode output d = (.error e, d')) :
    e = .notADirectory output ∧ d' = d ∨ ∃ fault, e = .writeFailed output fault := by
  rw [prepareOutput_apply] at h
  split at h
  · exact absurd (Prod.mk.inj h).1 (by simp)
  · obtain ⟨he, rfl⟩ := Prod.mk.inj h
    exact Or.inl ⟨(Except.error.inj he).symm, rfl⟩
  · exact absurd (Prod.mk.inj h).1 (by simp)
  · split at h
    · exact absurd (Prod.mk.inj h).1 (by simp)
    · exact Or.inr ⟨_, (Except.error.inj (Prod.mk.inj h).1).symm⟩

/-! ## The types -/

/-- Declarations fail only in the type compiler. -/
theorem TypeCompiler.eq_typeCompiler_of_block {compiler : TypeCompiler} {definitions : Definitions}
    {style : Style} {e : GenerateError} (h : compiler.block definitions style = .error e) :
    ∃ reason, e = .typeCompiler reason := by
  unfold block at h
  split at h
  · exact ⟨_, (Except.error.inj h).symm⟩
  · exact absurd h (by simp)

/-! ## Whole runs -/

/-- The files of validators in an output folder. -/
def Plan.pendingIn (p : Plan) (output : String) : List PendingFile :=
  p.pending.map fun f => { f with path := pathIn output f.path }

/-- The module of a plan, with the name of its registry. -/
def Plan.moduleNamed (p : Plan) (o : GenerateOptions) (decoderName declarations : String) : Module where
  decoderName
  style := o.style
  schema := p.schema
  engineOptions := o.validator.engineOptions
  imports := p.imports o.style
  declarations
  entries := p.decoders

/-- Where a run fails, and the disk it leaves. -/
inductive Failure (c : Collaborators) (o : GenerateOptions) (mode : WriteMode) (schema : Json)
    (output : String) (d : Disk) : GenerateError → Disk → Prop where
  /-- The schema has no plan; nothing was done. -/
  | planning {e : GenerateError} (h : Plan.ofSchema c.validators o schema = .error e) :
      Failure c o mode schema output d e d
  /-- The output folder cannot be used. -/
  | folder {e : GenerateError} {d' : Disk} (h : prepareOutput mode output d = (.error e, d')) :
      Failure c o mode schema output d e d'
  /-- A file cannot be written. -/
  | writing (path : String) (fault : FileFault) (d' : Disk) :
      Failure c o mode schema output d (.writeFailed path fault) d'
  /-- The types do not compile; the folder is prepared and the validators are written. -/
  | types {p : Plan} {d₁ : Disk} {e : GenerateError} (hplan : Plan.ofSchema c.validators o schema = .ok p)
      (hfolder : prepareOutput mode output d = (.ok (), d₁))
      (h : c.types.block p.definitions o.style = .error e) :
      Failure c o mode schema output d e (Run.attemptAll mode d₁ (p.pendingIn output)).2
  /-- The module is not laid out; the folder is prepared and the validators are written. -/
  | layout {p : Plan} {d₁ : Disk} {text reason : String}
      (hplan : Plan.ofSchema c.validators o schema = .ok p)
      (hfolder : prepareOutput mode output d = (.ok (), d₁))
      (htext : c.types.block p.definitions o.style = .ok text)
      (h : c.formatter (p.moduleNamed o (registryName o output d₁) text).assemble o.style = .error reason) :
      Failure c o mode schema output d (.formatter reason)
        (Run.attemptAll mode d₁ (p.pendingIn output)).2

/-- **Where a run that fails has failed.** -/
theorem failure_of_generate {c : Collaborators} {o : GenerateOptions} {mode : WriteMode} {schema : Json}
    {output : String} {d d' : Disk} {e : GenerateError}
    (h : generate c o mode schema output d = (.error e, d')) :
    Failure c o mode schema output d e d' := by
  unfold generate at h
  -- the steps in turn: plan, output folder, validators, types, layout, module
  rcases Run.bind_eq_error h with hlift | ⟨p, d₀, hlift, h⟩
  · obtain ⟨hplan, rfl⟩ := Run.lift_eq_iff.mp hlift
    exact .planning hplan
  obtain ⟨hplan, rfl⟩ := Run.lift_eq_iff.mp hlift
  rcases Run.bind_eq_error h with hfolder | ⟨_, d₁, hfolder, h⟩
  · exact .folder hfolder
  rw [Run.get_bind_apply] at h
  rcases Run.bind_eq_error h with hbatch | ⟨validators, d₂, hbatch, h⟩
  · rw [Run.updateAll_apply] at hbatch
    obtain ⟨path, fault, rfl⟩ :=
      Run.eq_writeFailed_of_mem_attemptAll (Run.mem_of_mapM_id (Prod.mk.inj hbatch).1)
    exact .writing path fault d'
  obtain rfl : (Run.attemptAll mode d₁ (p.pendingIn output)).2 = d₂ := by
    rw [Run.updateAll_apply] at hbatch
    exact (Prod.mk.inj hbatch).2
  rcases Run.bind_eq_error h with hlift | ⟨text, d₃, hlift, h⟩
  · obtain ⟨htypes, rfl⟩ := Run.lift_eq_iff.mp hlift
    exact .types hplan hfolder htypes
  obtain ⟨htext, rfl⟩ := Run.lift_eq_iff.mp hlift
  have hsource : Module.assemble ⟨registryName o output d₁, o.style, p.schema, o.validator.engineOptions,
      p.imports o.style, text, p.decoders⟩
        = (p.moduleNamed o (registryName o output d₁) text).assemble := rfl
  dsimp only at h
  rw [hsource] at h
  cases hlaid : c.formatter (p.moduleNamed o (registryName o output d₁) text).assemble o.style with
  | error reason =>
      rw [hlaid] at h
      obtain ⟨he, rfl⟩ := Prod.mk.inj h
      obtain rfl := Except.error.inj he
      exact .layout hplan hfolder htext hlaid
  | ok laid =>
      rw [hlaid] at h
      rcases Run.bind_eq_error h with hindex | ⟨outcome, d₄, -, h⟩
      · rw [Run.update_apply] at hindex
        split at hindex
        · exact absurd (Prod.mk.inj hindex).1 (by simp)
        · next e' hupdated =>
          obtain ⟨fault, rfl⟩ := Run.eq_writeFailed_of_updated hupdated
          obtain rfl := Except.error.inj (Prod.mk.inj hindex).1
          exact .writing _ fault d'
      · exact absurd (Prod.mk.inj h).1 (by simp)

/-- A run whose types do not compile ends where its validators are written. -/
theorem generate_of_types {c : Collaborators} {o : GenerateOptions} {mode : WriteMode} {schema : Json}
    {output : String} {p : Plan} {d d₁ d₂ : Disk} {files : List FileReport} {e : GenerateError}
    (hplan : Plan.ofSchema c.validators o schema = .ok p)
    (hfolder : prepareOutput mode output d = (.ok (), d₁))
    (hbatch : Run.updateAll mode (p.pendingIn output) d₁ = (.ok files, d₂))
    (htypes : c.types.block p.definitions o.style = .error e) :
    generate c o mode schema output d = (.error e, d₂) := by
  unfold generate
  rw [Run.bind_apply, Run.lift_apply, hplan]
  simp only
  rw [Run.bind_apply, hfolder]
  simp only
  unfold Plan.pendingIn at hbatch
  rw [Run.get_bind_apply, Run.bind_apply, hbatch]
  simp only
  rw [Run.bind_apply, Run.lift_apply, htypes]

/-- **What a run that succeeds has done**, step by step. -/
theorem generate_eq_ok_iff {c : Collaborators} {o : GenerateOptions} {mode : WriteMode} {schema : Json}
    {output : String} {d d' : Disk} {report : Report} :
    generate c o mode schema output d = (.ok report, d')
      ↔ ∃ p d₁ validators d₂ text laid outcome, Plan.ofSchema c.validators o schema = .ok p
        ∧ prepareOutput mode output d = (.ok (), d₁)
        ∧ Run.updateAll mode (p.pendingIn output) d₁ = (.ok validators, d₂)
        ∧ c.types.block p.definitions o.style = .ok text
        ∧ c.formatter (p.moduleNamed o (registryName o output d₁) text).assemble o.style = .ok laid
        ∧ Run.update mode (pathIn output indexFile) laid d₂ = (.ok outcome, d')
        ∧ report = ⟨registryName o output d₁, o.mode, p.decoders,
            validators ++ [⟨pathIn output indexFile, outcome⟩]⟩ := by
  unfold generate
  constructor
  · intro h
    obtain ⟨p, d₀, hlift, h⟩ := Run.bind_eq_ok_iff.mp h
    obtain ⟨hplan, rfl⟩ := Run.lift_eq_iff.mp hlift
    obtain ⟨_, d₁, hfolder, h⟩ := Run.bind_eq_ok_iff.mp h
    rw [Run.get_bind_apply] at h
    obtain ⟨validators, d₂, hbatch, h⟩ := Run.bind_eq_ok_iff.mp h
    obtain ⟨text, d₃, hlift, h⟩ := Run.bind_eq_ok_iff.mp h
    obtain ⟨htext, rfl⟩ := Run.lift_eq_iff.mp hlift
    dsimp only at h
    have hsource : Module.assemble ⟨registryName o output d₁, o.style, p.schema, o.validator.engineOptions,
        p.imports o.style, text, p.decoders⟩
          = (p.moduleNamed o (registryName o output d₁) text).assemble := rfl
    rw [hsource] at h
    cases hlaid : c.formatter (p.moduleNamed o (registryName o output d₁) text).assemble o.style with
    | error reason =>
      rw [hlaid] at h
      exact absurd (Prod.mk.inj h).1 (by simp)
    | ok laid =>
      rw [hlaid] at h
      obtain ⟨outcome, d₄, hindex, h⟩ := Run.bind_eq_ok_iff.mp h
      obtain ⟨hreport, rfl⟩ := Prod.mk.inj h
      exact ⟨p, d₁, validators, d₂, text, laid, outcome, hplan, hfolder, hbatch, htext, hlaid, hindex,
        (Except.ok.inj hreport).symm⟩
  · rintro ⟨p, d₁, validators, d₂, text, laid, outcome, hplan, hfolder, hbatch, htext, hlaid, hindex, rfl⟩
    refine Run.bind_eq_ok_iff.mpr ⟨p, d, Run.lift_eq_iff.mpr ⟨hplan, rfl⟩, ?_⟩
    refine Run.bind_eq_ok_iff.mpr ⟨(), d₁, hfolder, ?_⟩
    rw [Run.get_bind_apply]
    refine Run.bind_eq_ok_iff.mpr ⟨validators, d₂, hbatch, ?_⟩
    refine Run.bind_eq_ok_iff.mpr ⟨text, d₂, Run.lift_eq_iff.mpr ⟨htext, rfl⟩, ?_⟩
    unfold Plan.moduleNamed at hlaid
    dsimp only
    rw [hlaid]
    exact Run.bind_eq_ok_iff.mpr ⟨outcome, d', hindex, rfl⟩

end DecoderForge
