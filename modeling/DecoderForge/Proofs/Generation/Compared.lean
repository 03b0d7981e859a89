import DecoderForge.Proofs.Generation.Repeated

/-!
# DecoderForge — what a check tells of a run

A check compares the files of a disk with what a run would write, and writes nothing.  A run may make its
output folder first, and compares each file after it has written others.  On a disk that is a tree this
makes no difference, unless the path goes up: no two files of a run are at one place, and in a folder that
is new there is no file.

## The architecture

* **`Run.FoundAs`** — a disk on which the files of a run are read as if they stood in its folder.
* **`foundAs_of_prepareOutput`** — the disk before the output folder was made is one.
* **`Run.updates_check`** — hence a check finds a file stale where a run writes it.
* **`generate_check_agrees`** — the whole check and the whole run.
-/

namespace DecoderForge

/-- What a check reports of a file and what a run reports of it. -/
def FileReport.Foretells (checked run : FileReport) : Prop :=
  checked.path = run.path
    ∧ ((∃ diff, checked.outcome = .stale diff) ∧ run.outcome = .written
      ∨ checked.outcome = .unchanged ∧ run.outcome = .unchanged)

namespace Run

variable {output : String} {l : Location} {d d₁ : Disk}

/-- Reading a file of the output folder on a disk gives what stands in the folder on another. -/
def FoundAs (output : String) (l : Location) (d d₁ : Disk) : Prop :=
  ∀ f : PendingFile, Disk.IsFileName f.path.toList → d₁.entry? (l ++ [f.path]) ≠ some .folder →
    ∃ existing, readExisting (pathIn output f.path) d = .ok existing
      ∧ ∀ bytes, existing = some bytes ↔ d₁.entry? (l ++ [f.path]) = some (.file bytes)

/-- Where the path leads to the folder, its files are read. -/
theorem foundAs_of_leadsTo (hleads : d.LeadsTo output.toList l) : FoundAs output l d d := by
  intro f hname hfree
  have hread := hleads.read_join hname
  rw [String.ofList_toList, ← toList_pathIn] at hread
  unfold readExisting
  rw [hread]
  rcases hentry : d.entry? (l ++ [f.path]) with _ | _ | bytes
  · exact ⟨none, rfl, by simp⟩
  · exact absurd hentry hfree
  · exact ⟨some bytes, rfl, by simp⟩

/-- Files that are missing are read like those of a folder without files. -/
theorem foundAs_of_missing
    (hmissing : ∀ file, Disk.IsFileName file → d.read (Disk.Path.join output.toList file) = .error .notFound)
    (hempty : ∀ name bytes, d₁.entry? (l ++ [name]) ≠ some (.file bytes)) : FoundAs output l d d₁ := by
  intro f hname _
  have hread := hmissing f.path.toList hname
  rw [← toList_pathIn] at hread
  refine ⟨none, ?_, fun bytes => ?_⟩
  · unfold readExisting
    rw [hread]
  · exact ⟨nofun, fun h => absurd h (hempty f.path bytes)⟩

/-- **A check finds a file stale where a run writes it**, and unchanged where a run leaves it. -/
theorem updates_check (hfound : FoundAs output l d d₁) {files : List PendingFile}
    (hnames : ∀ f ∈ files, Disk.IsFileName f.path.toList)
    (hfree : ∀ f ∈ files, d₁.entry? (l ++ [f.path]) ≠ some .folder) :
    ∃ reports, Updates .check d (files.map (PendingFile.inFolder output)) reports d
      ∧ List.Forall₂ FileReport.Foretells reports (files.map (writeReport output l d₁)) := by
  induction files with
  | nil => exact ⟨[], .nil d, .nil⟩
  | cons f rest ih =>
      obtain ⟨hname, hnames⟩ := List.forall_mem_cons.mp hnames
      obtain ⟨hfree, hfrees⟩ := List.forall_mem_cons.mp hfree
      obtain ⟨reports, hrest, hagree⟩ := ih hnames hfrees
      obtain ⟨existing, hread, hbytes⟩ := hfound f hname hfree
      suffices hone : ∃ outcome, updated .check (f.inFolder output).path (f.inFolder output).content d
            = .ok (outcome, d)
          ∧ FileReport.Foretells ⟨(f.inFolder output).path, outcome⟩ (writeReport output l d₁ f) by
        obtain ⟨outcome, hupdated, hforetells⟩ := hone
        exact ⟨_, .cons hupdated hrest, .cons hforetells hagree⟩
      have hread' : readExisting (f.inFolder output).path d = .ok existing := hread
      unfold updated
      rw [hread']
      simp only [bind, Except.bind]
      by_cases hheld : existing = some f.bytes
      · have hsame : (existing == some (Text.encode (f.inFolder output).content.toList)) = true :=
          beq_iff_eq.mpr hheld
        rw [if_pos hsame]
        exact ⟨_, rfl, rfl, Or.inr ⟨rfl, if_pos ((hbytes f.bytes).mp hheld)⟩⟩
      · have hother : ¬ (existing == some (Text.encode (f.inFolder output).content.toList)) = true :=
          fun heq => hheld (beq_iff_eq.mp heq)
        rw [if_neg hother]
        exact ⟨_, rfl, rfl, Or.inl ⟨⟨_, rfl⟩, if_neg fun heq => hheld ((hbytes f.bytes).mpr heq)⟩⟩

end Run

/-! ## The output folder in both modes -/

/-- A folder that can be prepared passes a check, which leaves the disk as it is. -/
theorem prepareOutput_check {output : String} {d d₁ : Disk}
    (h : prepareOutput .write output d = (.ok (), d₁)) : prepareOutput .check output d = (.ok (), d) := by
  rw [prepareOutput_apply] at h ⊢
  rcases hfound : d.find? output.toList with _ | _ | bytes
  · rfl
  · rfl
  · rw [hfound] at h
    exact absurd (Prod.mk.inj h).1 (by simp)

/-- A folder that is made is named in its path, if the path does not go up. -/
theorem registryName_prepareOutput {o : GenerateOptions} {output : String} {d d₁ : Disk}
    (hup : .up ∉ Disk.Path.components output.toList)
    (h : prepareOutput .write output d = (.ok (), d₁)) :
    registryName o output d₁ = registryName o output d := by
  cases hlast : Disk.Path.fileName? output.toList with
  | some name =>
      unfold registryName Disk.folderName
      rw [hlast]
  | none =>
      -- such a path has no component at all, and nothing is made for it
      have hnone : Disk.Path.components output.toList = [] := by
        unfold Disk.Path.fileName? at hlast
        cases hcomponents : (Disk.Path.components output.toList).getLast? with
        | none => exact List.getLast?_eq_none_iff.mp hcomponents
        | some component =>
            rw [hcomponents] at hlast
            cases component with
            | up => exact absurd (List.mem_of_getLast? hcomponents) hup
            | name s => exact absurd hlast (by simp)
      suffices hsame : d₁ = d by rw [hsame]
      rw [prepareOutput_apply] at h
      rcases hfound : d.find? output.toList with _ | _ | bytes
      · rw [hfound] at h
        have hmade := Disk.attemptFolders_of_components (d := d) hnone
        split at h
        · next hcase => exact absurd hcase (by simp)
        · next hcase => exact absurd hcase (by simp)
        · next hmode => exact absurd hmode (by simp)
        · split at h
          · next d₂ hattempt =>
            rw [hattempt] at hmade
            exact (Prod.mk.inj h).2.symm.trans hmade
          · exact absurd (Prod.mk.inj h).1 (by simp)
      · rw [hfound] at h
        exact (Prod.mk.inj h).2.symm
      · rw [hfound] at h
        exact absurd (Prod.mk.inj h).1 (by simp)

/-- **The files of the output folder are read alike before it was made.** -/
theorem foundAs_of_prepareOutput {output : String} {d d₁ : Disk} {l : Location} (htree : d.IsTree)
    (hup : .up ∉ Disk.Path.components output.toList)
    (hfolder : prepareOutput .write output d = (.ok (), d₁)) (hleads : d₁.LeadsTo output.toList l) :
    Run.FoundAs output l d d₁ := by
  rcases prepareOutput_eq_ok hfolder with rfl | ⟨-, hadded⟩
  · exact Run.foundAs_of_leadsTo hleads
  · rcases hadded.leadsTo htree (Disk.not_up_of_components hup) hleads with hbefore | ⟨hmissing, hempty⟩
    · -- the folder was there, so that none was made
      have hsame := hfolder.symm.trans (prepareOutput_of_leadsTo hbefore .write)
      obtain rfl := (Prod.mk.inj hsame).2
      exact Run.foundAs_of_leadsTo hbefore
    · exact Run.foundAs_of_missing hmissing hempty

/-! ## Reports -/

/-- A check is up to date exactly where the run writes nothing. -/
theorem Report.isUpToDate_iff_of_foretells {checked run : Report}
    (h : List.Forall₂ FileReport.Foretells checked.files run.files) :
    checked.isUpToDate = true ↔ run.written = [] := by
  unfold isUpToDate written
  generalize checked.files = found, run.files = left at h
  induction h with
  | nil => simp
  | cons hfile _ ih =>
      obtain ⟨-, ⟨⟨diff, hstale⟩, hwritten⟩ | ⟨hchecked, hrun⟩⟩ := hfile
      · simp [hstale, hwritten]
      · simpa [hchecked, hrun] using ih

/-- **A check tells what a run would do.**  On a disk that is a tree, with a path that does not go up: where a
run succeeds, so does a check, and it changes nothing.  It reports the same registry, entries and paths in
the same order, a file as stale exactly where the run writes it and as unchanged where the run leaves it.
So it finds everything up to date exactly when the run writes no file. -/
theorem generate_check_agrees {c : Collaborators} {o : GenerateOptions} {schema : Json} {output : String}
    {d d' : Disk} {report : Report} (htree : d.IsTree)
    (hup : .up ∉ Disk.Path.components output.toList)
    (h : generate c o .write schema output d = (.ok report, d')) :
    ∃ checked, generate c o .check schema output d = (.ok checked, d)
      ∧ checked.decoderName = report.decoderName ∧ checked.mode = report.mode
      ∧ checked.entries = report.entries
      ∧ List.Forall₂ FileReport.Foretells checked.files report.files
      ∧ (checked.isUpToDate = true ↔ report.written = []) := by
  obtain ⟨p, d₁, text, laid, hplan, hfolder, htext, hlaid, hupdates, hname, hmode, hentries⟩ :=
    generate_eq_ok_iff_updates.mp h
  have hnames : ∀ f ∈ p.files laid, Disk.IsFileName f.path.toList := fun f hf =>
    Plan.isFileName_of_mem_files hplan hf
  have hsome : p.files laid ≠ [] := by simp [Plan.files]
  obtain ⟨l, hleads⟩ := hupdates.leadsTo hsome hnames
  obtain ⟨hfiles, hreports⟩ := hupdates.deposits hleads hnames (Plan.nodup_files hplan laid)
  have hregistry := registryName_prepareOutput (o := o) hup hfolder
  obtain ⟨reports, hchecked, hforetells⟩ :=
    Run.updates_check (foundAs_of_prepareOutput htree hup hfolder hleads) hnames hfiles.free
  rw [← hreports] at hforetells
  rw [hregistry] at hlaid hname
  refine ⟨⟨report.decoderName, report.mode, report.entries, reports⟩, ?_, rfl, rfl, rfl, hforetells,
    Report.isUpToDate_iff_of_foretells hforetells⟩
  exact generate_eq_ok_iff_updates.mpr ⟨p, d, text, laid, hplan, prepareOutput_check hfolder, htext,
    hlaid, hchecked, hname, hmode, hentries⟩

/-- The module that is written into a folder that was not there is stale in a check, which makes no folder. -/
theorem generate_check_agrees_foo : ∃ checked,
    generate (.builtIn { pack := false }) { pack := false } .check (lookedUp "Foo").schema "out" workplace
        = (.ok checked, workplace)
      ∧ checked.decoderName = "OutDecoder" ∧ checked.isUpToDate = false
      ∧ checked.files.map FileReport.path = ["out/index.ts"] := by
  have htree : workplace.IsTree := Disk.isTree_withFolder ["box", "work"]
  obtain ⟨laid, -, hrun⟩ := @generate_lookedUp "Foo" rfl rfl (by decide) (by decide)
  obtain ⟨checked, hchecked, hname, -, -, hforetells, hfresh⟩ :=
    generate_check_agrees htree (by decide) hrun
  refine ⟨checked, hchecked, hname, ?_, ?_⟩
  · rw [Bool.eq_false_iff, ne_eq, hfresh]
    exact List.cons_ne_nil _ _
  · obtain ⟨file, rest, ⟨hpath, -⟩, hrest, hfiles⟩ := List.forall₂_cons_right_iff.mp hforetells
    rw [hfiles, List.forall₂_nil_right_iff.mp hrest, List.map_singleton, hpath]

end DecoderForge
