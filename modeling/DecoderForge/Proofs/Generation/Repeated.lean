import DecoderForge.Proofs.Generation.Names
import DecoderForge.Proofs.Generation.Updates

/-!
# DecoderForge — a run that is repeated

A run leaves each of its files with the content it was to have.  Nothing that it reads of a disk is changed
by this: its plan comes from the schema, the name of the registry from the folder that its path leads to.
So the same run again finds every file as it would write it.

## The architecture

* **`prepareOutput_of_leadsTo`**, **`registryName_of_leadsTo`** — a folder that is there needs nothing, and
  has its name on every disk.
* **`Run.updates_of_holds`** — files that hold their contents are not written.
* **`generate_again`** — what a run leaves, and that the same run leaves this as it is.
-/

namespace DecoderForge

/-! ## A folder that is there -/

/-- Where the path leads to a folder there is nothing to prepare. -/
theorem prepareOutput_of_leadsTo {output : String} {d : Disk} {l : Location}
    (h : d.LeadsTo output.toList l) (mode : WriteMode) : prepareOutput mode output d = (.ok (), d) := by
  rw [prepareOutput_apply]
  by_cases hpath : output.toList = []
  · -- the empty path leads to the working folder, though nothing is found there
    rw [hpath]
    cases mode <;> rfl
  · rw [h.find? hpath]

/-- The name of the registry is the same wherever the path leads to the folder. -/
theorem registryName_of_leadsTo {output : String} {d d' : Disk} {l : Location}
    (h : d.LeadsTo output.toList l) (h' : d'.LeadsTo output.toList l) (o : GenerateOptions) :
    registryName o output d' = registryName o output d := by
  unfold registryName
  rw [h.folderName_eq h']

/-- **Files that hold their contents are not written.** -/
theorem Run.updates_of_holds {output : String} {d : Disk} {l : Location}
    (hleads : d.LeadsTo output.toList l) {files : List PendingFile}
    (hnames : ∀ f ∈ files, Disk.IsFileName f.path.toList)
    (hholds : ∀ f ∈ files, d.entry? (l ++ [f.path]) = some (.file f.bytes)) :
    Updates .write d (files.map (PendingFile.inFolder output))
      (files.map fun f => ⟨pathIn output f.path, .unchanged⟩) d := by
  induction files with
  | nil => exact .nil d
  | cons f rest ih =>
      obtain ⟨hname, hnames⟩ := List.forall_mem_cons.mp hnames
      obtain ⟨hhold, hholds⟩ := List.forall_mem_cons.mp hholds
      refine .cons ((updated_write_iff hleads hname).mpr ⟨?_, ?_⟩) (ih hnames hholds)
      · rw [hhold]
        exact nofun
      · rw [if_pos hhold]

/-! ## What a run leaves -/

/-- A place that a run has changed is a new folder on the way to the output folder, where nothing stood, or
the place of a file that is reported as written. -/
theorem changed_of_deposits {output : String} {d d₁ d' : Disk} {l : Location} {files : List PendingFile}
    (hadded : Disk.AddsFolders (· ∈ d.way output.toList) d d₁) (hleads : d'.LeadsTo output.toList l)
    (hnames : ∀ f ∈ files, Disk.IsFileName f.path.toList) (hfiles : Run.Deposits l files d₁ d')
    {place : Location} (hplace : d'.entry? place ≠ d.entry? place) :
    (d.entry? place = none ∧ d'.entry? place = some .folder ∧ place ∈ d.way output.toList)
      ∨ ∃ f ∈ files.map (Run.writeReport output l d₁), f.outcome = .written
          ∧ d'.locate f.path.toList = .ok place := by
  by_cases hfile : ∃ f ∈ files, place = l ++ [f.path]
  · right
    obtain ⟨f, hf, rfl⟩ := hfile
    refine ⟨_, List.mem_map_of_mem hf, ?_, ?_⟩
    · -- the file was not there before: folders are all that was made for it
      refine if_neg fun hheld => ?_
      rw [hfiles.holds f hf, ← hheld] at hplace
      have hfolder := (hadded.added _ hplace).2.1
      rw [hheld] at hfolder
      exact absurd hfolder (by simp)
    · show d'.locate (pathIn output f.path).toList = _
      rw [Run.toList_pathIn, hleads.locate_join (hnames f hf), String.ofList_toList]
  · left
    have hsame : d'.entry? place = d₁.entry? place :=
      hfiles.other place fun f hf heq => hfile ⟨f, hf, heq⟩
    rw [hsame] at hplace ⊢
    exact hadded.added place hplace

/-- **A run that succeeds and the same run again.**  Afterwards every file that is reported holds exactly its
content: a validator that of its plan, the module the text that was laid out.  No place has changed but
those of files reported as written, and new folders on the way to the output folder.  The same run on the
disk that is left reports all the same files in the same order, each unchanged, and leaves the disk as
it is. -/
theorem generate_again {c : Collaborators} {o : GenerateOptions} {schema : Json} {output : String}
    {d d' : Disk} {report : Report}
    (h : generate c o .write schema output d = (.ok report, d')) :
    (∃ p text laid, Plan.ofSchema c.validators o schema = .ok p
        ∧ c.types.block p.definitions o.style = .ok text
        ∧ c.formatter (p.moduleNamed o report.decoderName text).assemble o.style = .ok laid
        ∧ report.files.map FileReport.path = (p.files laid).map (fun f => pathIn output f.path)
        ∧ ∀ f ∈ p.files laid, d'.read (pathIn output f.path).toList = .ok (Text.encode f.content.toList))
      ∧ (∀ l, d'.entry? l ≠ d.entry? l →
          (d.entry? l = none ∧ d'.entry? l = some .folder ∧ l ∈ d.way output.toList)
            ∨ ∃ f ∈ report.files, f.outcome = .written ∧ d'.locate f.path.toList = .ok l)
      ∧ generate c o .write schema output d'
          = (.ok { report with files := report.files.map fun f => { f with outcome := .unchanged } }, d') := by
  obtain ⟨p, d₁, text, laid, hplan, hfolder, htext, hlaid, hupdates, hname, hmode, hentries⟩ :=
    generate_eq_ok_iff_updates.mp h
  have hnames : ∀ f ∈ p.files laid, Disk.IsFileName f.path.toList := fun f hf =>
    Plan.isFileName_of_mem_files hplan hf
  have hsome : p.files laid ≠ [] := by simp [Plan.files]
  obtain ⟨l, hleads⟩ := hupdates.leadsTo hsome hnames
  obtain ⟨hfiles, hreports⟩ := hupdates.deposits hleads hnames (Plan.nodup_files hplan laid)
  have hleads' := hleads.mono hfiles.keeps
  have hadded : Disk.AddsFolders (· ∈ d.way output.toList) d d₁ := by
    rcases prepareOutput_eq_ok hfolder with rfl | ⟨-, hadded⟩
    · exact .refl _ _
    · exact hadded
  rw [← hname] at hlaid
  refine ⟨⟨p, text, laid, hplan, htext, hlaid, ?_, fun f hf => ?_⟩, fun place hplace => ?_, ?_⟩
  · rw [hreports, List.map_map]
    rfl
  · have hread := hleads'.read_join (hnames f hf)
    rw [String.ofList_toList, ← Run.toList_pathIn, hfiles.holds f hf] at hread
    exact hread
  · rw [hreports]
    exact changed_of_deposits hadded hleads' hnames hfiles hplace
  · -- the second run goes through the same plan, folder, name and texts
    have hregistry : registryName o output d' = report.decoderName :=
      (registryName_of_leadsTo hleads hleads' o).trans hname.symm
    rw [← hregistry] at hlaid
    refine generate_eq_ok_iff_updates.mpr ⟨p, d', text, laid, hplan, prepareOutput_of_leadsTo hleads' _,
      htext, hlaid, ?_, hregistry.symm, hmode, hentries⟩
    have hunchanged : (report.files.map fun f => { f with outcome := WriteOutcome.unchanged })
        = (p.files laid).map fun f => ⟨pathIn output f.path, .unchanged⟩ := by
      rw [hreports, List.map_map]
      rfl
    rw [hunchanged]
    exact Run.updates_of_holds hleads' hnames hfiles.holds

/-- A module is written into a folder that was not there, and is unchanged the second time. -/
theorem generate_again_foo : ∃ d',
    generate (.builtIn { pack := false }) { pack := false } .write (lookedUp "Foo").schema "out" workplace
        = (.ok ⟨"OutDecoder", .noPack, (lookedUp "Foo").decoders, [⟨"out/index.ts", .written⟩]⟩, d')
      ∧ generate (.builtIn { pack := false }) { pack := false } .write (lookedUp "Foo").schema "out" d'
        = (.ok ⟨"OutDecoder", .noPack, (lookedUp "Foo").decoders, [⟨"out/index.ts", .unchanged⟩]⟩, d') := by
  obtain ⟨laid, -, hrun⟩ := @generate_lookedUp "Foo" rfl rfl (by decide) (by decide)
  exact ⟨_, hrun, (generate_again hrun).2.2⟩

end DecoderForge
