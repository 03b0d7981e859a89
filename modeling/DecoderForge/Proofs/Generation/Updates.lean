import DecoderForge.Proofs.Generation.Failure

/-!
# DecoderForge — a run as a row of file updates

Behind its plan and its output folder a run that succeeds is a row of updates of single files: the
validators, then the module.  All are files of one folder with different names, so that no update sees
what another has written.

## The architecture

* **`Run.Updates`** — files updated one after another.
* **`generate_eq_ok_iff_updates`** — a run that succeeds is such a row.
* **`Run.updated_write_iff`** — one file of a folder.
* **`Run.Updates.leadsTo`**, **`Run.Updates.deposits`** — where names lead after a row, and what its files hold.
-/

namespace DecoderForge

/-- A file by its name in a folder. -/
def PendingFile.inFolder (folder : String) (f : PendingFile) : PendingFile :=
  { f with path := pathIn folder f.path }

/-- The bytes that the file is to hold. -/
def PendingFile.bytes (f : PendingFile) : List UInt8 := Text.encode f.content.toList

/-- The files of a run by their names in the output folder: the validators, then the module. -/
def Plan.files (p : Plan) (laid : String) : List PendingFile := p.pending ++ [⟨indexFile, laid⟩]

/-- The files of a plan are files in a folder. -/
theorem Plan.isFileName_of_mem_files {compiler : ValidatorCompiler} {o : GenerateOptions} {schema : Json}
    {p : Plan} (h : ofSchema compiler o schema = .ok p) {laid : String} {f : PendingFile}
    (hf : f ∈ p.files laid) : Disk.IsFileName f.path.toList := by
  rcases List.mem_append.mp hf with hf | hf
  · exact (isFileName_of_mem_pending h hf).1
  · rw [List.mem_singleton.mp hf]
    exact isFileName_indexFile

/-- **No two files of a plan have one name**, the module included. -/
theorem Plan.nodup_files {compiler : ValidatorCompiler} {o : GenerateOptions} {schema : Json} {p : Plan}
    (h : ofSchema compiler o schema = .ok p) (laid : String) :
    ((p.files laid).map PendingFile.path).Nodup := by
  unfold files
  rw [List.map_append, List.nodup_append]
  refine ⟨nodup_paths h, List.nodup_singleton _, fun path hpath path' hpath' => ?_⟩
  obtain ⟨f, hf, rfl⟩ := List.mem_map.mp hpath
  rw [List.mem_singleton.mp hpath']
  exact (isFileName_of_mem_pending h hf).2

namespace Run

/-! ## Rows of updates -/

/-- Files updated one after another, with what became of each. -/
inductive Updates (mode : WriteMode) : Disk → List PendingFile → List FileReport → Disk → Prop where
  | nil (d : Disk) : Updates mode d [] [] d
  | cons {d d₁ d₂ : Disk} {f : PendingFile} {outcome : WriteOutcome} {rest : List PendingFile}
      {reports : List FileReport} (h : updated mode f.path f.content d = .ok (outcome, d₁))
      (h' : Updates mode d₁ rest reports d₂) :
      Updates mode d (f :: rest) (⟨f.path, outcome⟩ :: reports) d₂

theorem Updates.single {mode : WriteMode} {d d' : Disk} {f : PendingFile} {outcome : WriteOutcome}
    (h : updated mode f.path f.content d = .ok (outcome, d')) :
    Updates mode d [f] [⟨f.path, outcome⟩] d' := .cons h (.nil d')

theorem Updates.append {mode : WriteMode} {d d₁ d₂ : Disk} {files files' : List PendingFile}
    {reports reports' : List FileReport} (h : Updates mode d files reports d₁)
    (h' : Updates mode d₁ files' reports' d₂) :
    Updates mode d (files ++ files') (reports ++ reports') d₂ := by
  induction h with
  | nil => exact h'
  | cons hf _ ih => exact .cons hf (ih h')

theorem Updates.of_append {mode : WriteMode} {d d₂ : Disk} {files files' : List PendingFile}
    {reports : List FileReport} (h : Updates mode d (files ++ files') reports d₂) :
    ∃ d₁ first second, reports = first ++ second ∧ Updates mode d files first d₁
      ∧ Updates mode d₁ files' second d₂ := by
  induction files generalizing d reports with
  | nil => exact ⟨d, [], reports, rfl, .nil d, h⟩
  | cons f rest ih =>
      obtain _ | ⟨hf, hrest⟩ := h
      obtain ⟨d₁, first, second, rfl, hfirst, hsecond⟩ := ih hrest
      exact ⟨d₁, _ :: first, second, rfl, .cons hf hfirst, hsecond⟩

/-- **Updating several files** succeeds when each update does. -/
theorem updateAll_eq_ok_iff {mode : WriteMode} {files : List PendingFile} {d d' : Disk}
    {reports : List FileReport} :
    updateAll mode files d = (.ok reports, d') ↔ Updates mode d files reports d' := by
  rw [updateAll_apply]
  induction files generalizing d reports with
  | nil =>
      constructor
      · intro h
        obtain ⟨hreports, rfl⟩ := Prod.mk.inj h
        obtain rfl := Except.ok.inj hreports
        exact .nil d
      · rintro ⟨⟩
        rfl
  | cons f rest ih =>
      rw [attemptAll]
      cases hupdated : updated mode f.path f.content d with
      | error e =>
          constructor
          · intro h
            exact absurd (Prod.mk.inj h).1 (by simp [List.mapM_cons, bind, Except.bind])
          · rintro (_ | ⟨hf, -⟩)
            exact absurd (hupdated.symm.trans hf) (by simp)
      | ok r =>
          obtain ⟨outcome, d₁⟩ := r
          constructor
          · intro h
            obtain ⟨hreports, hdisk⟩ := Prod.mk.inj h
            cases hrest : (attemptAll mode d₁ rest).1.mapM id with
            | error e =>
                rw [List.mapM_cons] at hreports
                simp only [id, bind, Except.bind, hrest] at hreports
                exact absurd hreports (by simp)
            | ok more =>
                rw [List.mapM_cons] at hreports
                simp only [id, bind, Except.bind, hrest, pure, Except.pure, Except.ok.injEq] at hreports
                subst hreports
                exact .cons hupdated (ih.mp (Prod.ext hrest hdisk))
          · rintro (_ | ⟨hf, hrest⟩)
            obtain ⟨rfl, rfl⟩ := Prod.mk.inj (Except.ok.inj (hupdated.symm.trans hf))
            obtain ⟨hmore, hdisk⟩ := Prod.mk.inj (ih.mpr hrest)
            refine Prod.ext ?_ hdisk
            show List.mapM id (_ :: (attemptAll mode d₁ rest).1) = _
            rw [List.mapM_cons]
            simp only [id, bind, Except.bind, hmore]
            rfl

theorem update_eq_ok_iff {mode : WriteMode} {path content : String} {d d' : Disk}
    {outcome : WriteOutcome} :
    update mode path content d = (.ok outcome, d') ↔ updated mode path content d = .ok (outcome, d') := by
  rw [update_apply]
  cases updated mode path content d with
  | error e =>
      constructor <;> intro h
      · exact absurd (Prod.mk.inj h).1 (by simp)
      · exact absurd h (by simp)
  | ok r =>
      obtain ⟨outcome', d₁⟩ := r
      constructor <;> intro h
      · obtain ⟨houtcome, rfl⟩ := Prod.mk.inj h
        rw [Except.ok.inj houtcome]
      · obtain ⟨rfl, rfl⟩ := Prod.mk.inj (Except.ok.inj h)
        rfl

end Run

/-- **A run that succeeds is a row of updates** behind its plan and its output folder. -/
theorem generate_eq_ok_iff_updates {c : Collaborators} {o : GenerateOptions} {mode : WriteMode}
    {schema : Json} {output : String} {d d' : Disk} {report : Report} :
    generate c o mode schema output d = (.ok report, d')
      ↔ ∃ p d₁ text laid, Plan.ofSchema c.validators o schema = .ok p
        ∧ prepareOutput mode output d = (.ok (), d₁)
        ∧ c.types.block p.definitions o.style = .ok text
        ∧ c.formatter (p.moduleNamed o (registryName o output d₁) text).assemble o.style = .ok laid
        ∧ Run.Updates mode d₁ ((p.files laid).map (PendingFile.inFolder output)) report.files d'
        ∧ report.decoderName = registryName o output d₁ ∧ report.mode = o.mode
        ∧ report.entries = p.decoders := by
  have hfiles (p : Plan) (laid : String) : (p.files laid).map (PendingFile.inFolder output)
      = p.pendingIn output ++ [⟨pathIn output indexFile, laid⟩] := List.map_append
  rw [generate_eq_ok_iff]
  constructor
  · rintro ⟨p, d₁, validators, d₂, text, laid, outcome, hplan, hfolder, hbatch, htext, hlaid, hindex, rfl⟩
    refine ⟨p, d₁, text, laid, hplan, hfolder, htext, hlaid, ?_, rfl, rfl, rfl⟩
    rw [hfiles]
    exact (Run.updateAll_eq_ok_iff.mp hbatch).append
      (.single (f := ⟨_, laid⟩) (Run.update_eq_ok_iff.mp hindex))
  · rintro ⟨p, d₁, text, laid, hplan, hfolder, htext, hlaid, hupdates, hname, hmode, hentries⟩
    obtain ⟨decoderName, mode', entries, reports⟩ := report
    simp only at hupdates hname hmode hentries
    subst hname hmode hentries
    rw [hfiles] at hupdates
    obtain ⟨d₂, validators, last, rfl, hbatch, hlast⟩ := hupdates.of_append
    obtain _ | ⟨hindex, ⟨⟩⟩ := hlast
    exact ⟨p, d₁, validators, d₂, text, laid, _, hplan, hfolder, Run.updateAll_eq_ok_iff.mpr hbatch, htext,
      hlaid, Run.update_eq_ok_iff.mpr hindex, rfl⟩

namespace Run

/-! ## Files of one folder -/

section Folder

variable {output : String} {l : Location}

theorem toList_pathIn (output name : String) :
    (pathIn output name).toList = Disk.Path.join output.toList name.toList := String.toList_ofList

/-- **One file of a folder.**  It is updated unless a folder stands in its place, and written unless it
holds the content. -/
theorem updated_write_iff {d d' : Disk} (hleads : d.LeadsTo output.toList l) {f : PendingFile}
    (hname : Disk.IsFileName f.path.toList) {outcome : WriteOutcome} :
    updated .write (f.inFolder output).path (f.inFolder output).content d = .ok (outcome, d')
      ↔ d.entry? (l ++ [f.path]) ≠ some .folder
        ∧ (if d.entry? (l ++ [f.path]) = some (.file f.bytes) then (.unchanged, d)
            else (.written, d.put (l ++ [f.path]) (.file f.bytes))) = (outcome, d') := by
  have hread := hleads.read_join hname
  have hwrite := hleads.write_join hname f.bytes
  rw [String.ofList_toList, ← toList_pathIn] at hread hwrite
  unfold PendingFile.bytes at hwrite ⊢
  unfold updated readExisting PendingFile.inFolder
  simp only
  rw [hread, hwrite]
  rcases hentry : d.entry? (l ++ [f.path]) with _ | _ | bytes
  · simp [bind, Except.bind, pure, Except.pure]
  · simp [bind, Except.bind]
  · by_cases hsame : bytes = Text.encode f.content.toList
    · subst hsame
      simp [bind, Except.bind, pure, Except.pure]
    · simp [bind, Except.bind, pure, Except.pure, hsame]

/-- A file that is updated has a folder. -/
theorem leadsTo_of_updated {d d' : Disk} {f : PendingFile} (hname : Disk.IsFileName f.path.toList)
    {outcome : WriteOutcome}
    (h : updated .write (f.inFolder output).path (f.inFolder output).content d = .ok (outcome, d')) :
    ∃ l, d.LeadsTo output.toList l := by
  suffices hplace : ∃ place, d.locate (Disk.Path.join output.toList f.path.toList) = .ok place by
    obtain ⟨place, hplace⟩ := hplace
    obtain ⟨l, hleads, -⟩ := Disk.leadsTo_of_locate_join hname hplace
    exact ⟨l, hleads⟩
  -- a file without a place can be neither read nor written
  cases hlocate : d.locate (Disk.Path.join output.toList f.path.toList) with
  | ok place => exact ⟨place, rfl⟩
  | error fault =>
      have hread : d.read (pathIn output f.path).toList = .error fault := by
        unfold Disk.read
        rw [toList_pathIn, hlocate]
        rfl
      have hwrite (bytes : List UInt8) : d.write (pathIn output f.path).toList bytes = .error fault := by
        unfold Disk.write
        rw [toList_pathIn, hlocate]
        rfl
      unfold updated readExisting PendingFile.inFolder at h
      simp only at h
      rw [hread] at h
      cases fault <;> simp [bind, Except.bind, hwrite, throw, throwThe, MonadExceptOf.throw] at h

/-- **Where a row of writes succeeds, the path leads to a folder.** -/
theorem Updates.leadsTo {d d' : Disk} {files : List PendingFile} {reports : List FileReport}
    (h : Updates .write d (files.map (PendingFile.inFolder output)) reports d') (hsome : files ≠ [])
    (hnames : ∀ f ∈ files, Disk.IsFileName f.path.toList) : ∃ l, d.LeadsTo output.toList l := by
  cases files with
  | nil => exact absurd rfl hsome
  | cons f rest =>
      obtain _ | ⟨hf, -⟩ := h
      exact leadsTo_of_updated (hnames f List.mem_cons_self) hf

/-- What a row of writes does to the files of a folder, and to nothing else. -/
structure Deposits (l : Location) (files : List PendingFile) (d d' : Disk) : Prop where
  keeps : d.KeepsFolders d'
  free : ∀ f ∈ files, d.entry? (l ++ [f.path]) ≠ some .folder
  holds : ∀ f ∈ files, d'.entry? (l ++ [f.path]) = some (.file f.bytes)
  other : ∀ l', (∀ f ∈ files, l' ≠ l ++ [f.path]) → d'.entry? l' = d.entry? l'

/-- What is reported of a file, by what stands in its place. -/
def writeReport (output : String) (l : Location) (d : Disk) (f : PendingFile) : FileReport :=
  ⟨pathIn output f.path,
    if d.entry? (l ++ [f.path]) = some (.file f.bytes) then .unchanged else .written⟩

/-- Files of other names are at other places. -/
theorem place_ne {f : PendingFile} {rest : List PendingFile} (hnew : f.path ∉ rest.map PendingFile.path)
    (l : Location) : ∀ g ∈ rest, l ++ [g.path] ≠ l ++ [f.path] := by
  intro g hg heq
  obtain ⟨-, hlast⟩ := List.append_inj' heq rfl
  exact hnew ((List.cons.inj hlast).1 ▸ List.mem_map_of_mem hg)

theorem Deposits.cons {d d₁ d₂ : Disk} {f : PendingFile} {rest : List PendingFile}
    (h : Deposits l [f] d d₁) (h' : Deposits l rest d₁ d₂) (hnew : f.path ∉ rest.map PendingFile.path) :
    Deposits l (f :: rest) d d₂ := by
  have hapart := place_ne hnew l
  have hsame : ∀ g ∈ rest, d₁.entry? (l ++ [g.path]) = d.entry? (l ++ [g.path]) := fun g hg =>
    h.other _ fun f' hf' => List.mem_singleton.mp hf' ▸ hapart g hg
  refine ⟨h.keeps.trans h'.keeps, ?_, ?_, fun l' hl' => ?_⟩
  · refine List.forall_mem_cons.mpr ⟨h.free f List.mem_cons_self, fun g hg => ?_⟩
    rw [← hsame g hg]
    exact h'.free g hg
  · refine List.forall_mem_cons.mpr ⟨?_, h'.holds⟩
    rw [h'.other _ fun g hg => (hapart g hg).symm]
    exact h.holds f List.mem_cons_self
  · obtain ⟨hf, hrest⟩ := List.forall_mem_cons.mp hl'
    rw [h'.other l' hrest]
    exact h.other l' fun f' hf' => List.mem_singleton.mp hf' ▸ hf

/-- **One write** of a file of a folder. -/
theorem deposits_of_updated {d d' : Disk} (hleads : d.LeadsTo output.toList l) {f : PendingFile}
    (hname : Disk.IsFileName f.path.toList) {outcome : WriteOutcome}
    (h : updated .write (f.inFolder output).path (f.inFolder output).content d = .ok (outcome, d')) :
    Deposits l [f] d d' ∧ ⟨(f.inFolder output).path, outcome⟩ = writeReport output l d f := by
  obtain ⟨hfree, hwritten⟩ := (updated_write_iff hleads hname).mp h
  have hplace : l ++ [f.path] ≠ [] := by simp
  unfold writeReport
  by_cases hholds : d.entry? (l ++ [f.path]) = some (.file f.bytes)
  · rw [if_pos hholds] at hwritten ⊢
    obtain ⟨rfl, rfl⟩ := Prod.mk.inj hwritten
    exact ⟨⟨.refl d, by simpa using hfree, by simpa using hholds, fun _ _ => rfl⟩, rfl⟩
  · rw [if_neg hholds] at hwritten ⊢
    obtain ⟨rfl, rfl⟩ := Prod.mk.inj hwritten
    refine ⟨⟨Disk.keepsFolders_put hplace _ hfree, by simpa using hfree, ?_, fun l' hl' => ?_⟩, rfl⟩
    · rintro g hg
      rw [List.mem_singleton.mp hg, Disk.entry?_put d hplace, if_pos rfl]
    · rw [Disk.entry?_put d hplace, if_neg (hl' f List.mem_cons_self)]

/-- **A row of writes**: every file holds its content afterwards and nothing else has changed, and the
reports tell which files held it before. -/
theorem Updates.deposits {d d' : Disk} {files : List PendingFile} {reports : List FileReport}
    (h : Updates .write d (files.map (PendingFile.inFolder output)) reports d')
    (hleads : d.LeadsTo output.toList l) (hnames : ∀ f ∈ files, Disk.IsFileName f.path.toList)
    (hdistinct : (files.map PendingFile.path).Nodup) :
    Deposits l files d d' ∧ reports = files.map (writeReport output l d) := by
  induction files generalizing d reports with
  | nil =>
      obtain ⟨⟩ := h
      exact ⟨⟨.refl _, by simp, by simp, fun _ _ => rfl⟩, rfl⟩
  | cons f rest ih =>
      obtain _ | ⟨hf, hrest⟩ := h
      obtain ⟨hname, hnames⟩ := List.forall_mem_cons.mp hnames
      obtain ⟨hnew, hdistinct⟩ := List.nodup_cons.mp hdistinct
      obtain ⟨hfirst, hreport⟩ := deposits_of_updated hleads hname hf
      obtain ⟨hothers, hreports⟩ := ih hrest (hleads.mono hfirst.keeps) hnames hdistinct
      refine ⟨hfirst.cons hothers hnew, ?_⟩
      rw [hreport, hreports, List.map_cons]
      refine congrArg _ (List.map_congr_left fun g hg => ?_)
      -- the first write has not changed what the others find
      unfold writeReport
      rw [hfirst.other]
      exact fun f' hf' => List.mem_singleton.mp hf' ▸ place_ne hnew l g hg

end Folder

end Run

end DecoderForge
