import DecoderForge.Proofs.Disk.Changes

/-!
# DecoderForge — the folder that a path leads to

A path that leads to a folder leads to the files in it, each of them one step behind.  Making folders can
bring such a folder about; on a disk that is a tree it holds no file then, for nothing stood below a place
where nothing stood.

## The architecture

* **`Disk.LeadsTo`** — a path leads to a folder, and **`Disk.LeadsTo.mono`** — it goes on doing so.
* **`Disk.LeadsTo.read_join`**, **`Disk.LeadsTo.write_join`** — the files of the folder.
* **`Disk.IsTree`** — whatever stands somewhere stands in a folder.
* **`Disk.AddsFolders.leadsTo`** — a folder was there before folders were made, or it is new and empty.
-/

namespace DecoderForge.Disk

/-! ## Paths to folders -/

/-- The steps of a path lead to a folder. -/
structure LeadsTo (d : Disk) (path : List Char) (l : Location) : Prop where
  follow : d.follow path = .ok l
  folder : d.entry? l = some .folder

theorem KeepsFolders.follow {d d' : Disk} (h : KeepsFolders d d') {path : List Char} {l : Location}
    (hfollow : d.follow path = .ok l) : d'.follow path = .ok l := by
  unfold Disk.follow origin at hfollow ⊢
  rw [h.working]
  exact h.walk hfollow

namespace LeadsTo

variable {d d' : Disk} {path file : List Char} {l : Location}

/-- Where folders stay, a path goes on leading to its folder. -/
theorem mono (h : d.LeadsTo path l) (hkeeps : KeepsFolders d d') : d'.LeadsTo path l :=
  ⟨hkeeps.follow h.follow, hkeeps.folders l h.folder⟩

theorem locate (h : d.LeadsTo path l) (hpath : path ≠ []) : d.locate path = .ok l :=
  locate_of_folder hpath h.follow h.folder

theorem find? (h : d.LeadsTo path l) (hpath : path ≠ []) : d.find? path = some .folder := by
  unfold Disk.find?
  rw [h.locate hpath]
  exact h.folder

/-- The place of a file of the folder. -/
theorem locate_join (h : d.LeadsTo path l) (hfile : IsFileName file) :
    d.locate (Path.join path file) = .ok (l ++ [String.ofList file]) := by
  rw [Disk.locate_join d path hfile, h.follow]
  simp only [Except.bind, step_isFileName hfile, h.folder]

/-- **Reading a file of the folder.** -/
theorem read_join (h : d.LeadsTo path l) (hfile : IsFileName file) :
    d.read (Path.join path file) = match d.entry? (l ++ [String.ofList file]) with
      | none => .error .notFound
      | some .folder => .error .isADirectory
      | some (.file bytes) => .ok bytes := by
  unfold read
  rw [h.locate_join hfile]
  simp only [bind, Except.bind]
  rcases d.entry? (l ++ [String.ofList file]) with _ | _ | _ <;> rfl

/-- **Writing a file of the folder.** -/
theorem write_join (h : d.LeadsTo path l) (hfile : IsFileName file) (bytes : List UInt8) :
    d.write (Path.join path file) bytes = match d.entry? (l ++ [String.ofList file]) with
      | some .folder => .error .isADirectory
      | _ => .ok (d.put (l ++ [String.ofList file]) (.file bytes)) := by
  unfold write
  rw [h.locate_join hfile, endsInSlash_join path hfile]
  simp only [bind, Except.bind, Bool.or_false]
  rcases d.entry? (l ++ [String.ofList file]) with _ | _ | _ <;> rfl

/-- The name of the folder is the same on every disk on which the path leads to it. -/
theorem folderName_eq (h : d.LeadsTo path l) (h' : d'.LeadsTo path l) :
    d'.folderName path = d.folderName path := by
  unfold folderName
  by_cases hpath : path = []
  · subst hpath
    rfl
  · rw [h.locate hpath, h'.locate hpath]
    simp only [h.folder, h'.folder]

end LeadsTo

/-- A file that has a place has it in a folder. -/
theorem leadsTo_of_locate_join {d : Disk} {path file : List Char} (hfile : IsFileName file)
    {l : Location} (h : d.locate (Path.join path file) = .ok l) :
    ∃ folder, d.LeadsTo path folder ∧ l = folder ++ [String.ofList file] := by
  rw [locate_join d path hfile] at h
  cases hfollow : d.follow path with
  | error f =>
      rw [hfollow] at h
      exact absurd h (by simp [Except.bind])
  | ok folder =>
      rw [hfollow] at h
      simp only [Except.bind, step_isFileName hfile] at h
      split at h
      · exact absurd h (by simp)
      · exact absurd h (by simp)
      · next hfolder => exact ⟨folder, ⟨hfollow, hfolder⟩, (Except.ok.inj h).symm⟩

/-- Different files of folders are at different places. -/
theorem file_eq_of_locate_join {d : Disk} {base base' file file' : List Char} (hfile : IsFileName file)
    (hfile' : IsFileName file') {l : Location} (h : d.locate (Path.join base file) = .ok l)
    (h' : d.locate (Path.join base' file') = .ok l) : file = file' := by
  obtain ⟨folder, -, rfl⟩ := leadsTo_of_locate_join hfile h
  obtain ⟨folder', -, heq⟩ := leadsTo_of_locate_join hfile' h'
  obtain ⟨-, hlast⟩ := List.append_inj' heq rfl
  exact String.ofList_injective (List.cons.inj hlast).1

/-! ## Disks that are trees -/

/-- Whatever stands somewhere stands in a folder. -/
structure IsTree (d : Disk) : Prop where
  above : ∀ (l : Location) (name : String), d.entry? (l ++ [name]) ≠ none → d.entry? l = some .folder

namespace IsTree

variable {d : Disk}

/-- What stands above something that stands somewhere is a folder. -/
theorem folder_of_prefix (h : d.IsTree) {l : Location} (rest : Location) :
    d.entry? (l ++ rest) = some .folder → d.entry? l = some .folder := by
  induction rest generalizing l with
  | nil =>
      intro hfolder
      rwa [List.append_nil] at hfolder
  | cons name rest ih =>
      intro hfolder
      rw [List.append_cons] at hfolder
      have hnext := ih hfolder
      exact h.above l name (by simp [hnext])

end IsTree

theorem mem_ancestry {l folder : Location} : l ∈ ancestry folder ↔ l ≠ [] ∧ l <+: folder := by
  induction folder generalizing l with
  | nil => simp [ancestry]
  | cons name rest ih =>
      rw [ancestry, List.mem_cons, List.mem_map]
      cases l with
      | nil => simp
      | cons name' l =>
          simp only [List.cons.injEq, ih, List.cons_prefix_cons]
          constructor
          · rintro (⟨rfl, rfl⟩ | ⟨below, ⟨-, hbelow⟩, rfl, rfl⟩)
            · exact ⟨by simp, rfl, List.nil_prefix⟩
            · exact ⟨by simp, rfl, hbelow⟩
          · rintro ⟨-, rfl, hl⟩
            by_cases hnil : l = []
            · exact Or.inl ⟨rfl, hnil⟩
            · exact Or.inr ⟨l, ⟨hnil, hl⟩, rfl, rfl⟩

/-- On a disk with nothing but a folder stands what is above it. -/
theorem entry?_withFolder (folder l : Location) :
    Disk.entry? (withFolder folder) l = if l <+: folder then some .folder else none := by
  have hlookup (ls : List Location) :
      (ls.map fun l => (l, DiskEntry.folder)).lookup l = if l ∈ ls then some .folder else none := by
    induction ls with
    | nil => rfl
    | cons l' ls ih =>
        rw [List.map_cons, List.lookup_cons, ih]
        by_cases heq : l = l'
        · simp [heq]
        · simp [heq, beq_false_of_ne heq]
  unfold entry? withFolder
  by_cases hnil : l = []
  · simp [hnil]
  · rw [if_neg (by simpa using hnil), hlookup]
    simp [mem_ancestry, hnil]

/-- Such a disk is a tree. -/
theorem isTree_withFolder (folder : Location) : IsTree (withFolder folder) := by
  refine ⟨fun l name hsome => ?_⟩
  rw [entry?_withFolder] at hsome ⊢
  split at hsome
  · next hbelow => exact if_pos ((List.prefix_append l [name]).trans hbelow)
  · exact absurd rfl hsome

/-- A step that does not go up leads to the same place or to one below. -/
theorem step_extends {d : Disk} {at' next : Location} {s : List Char} (h : d.step at' s = .ok next)
    (hup : s ≠ ['.', '.']) :
    d.entry? at' = some .folder ∧ at' <+: next
      ∧ ∀ d' : Disk, d'.entry? at' = some .folder → d'.step at' s = .ok next := by
  unfold step at h
  split at h
  · exact absurd h (by simp)
  · exact absurd h (by simp)
  · next hfolder =>
    refine ⟨hfolder, ?_, fun d' hfolder' => ?_⟩
    · split at h
      · rw [Except.ok.inj h]
      · rw [if_neg (by simpa using hup)] at h
        rw [← Except.ok.inj h]
        exact List.prefix_append _ _
    · unfold step
      rw [hfolder']
      exact h

theorem prefix_of_walk {d : Disk} {l : Location} {segments : List (List Char)} {at' : Location}
    (h : d.walk at' segments = .ok l) (hup : ∀ s ∈ segments, s ≠ ['.', '.']) : at' <+: l := by
  induction segments generalizing at' with
  | nil => rw [Except.ok.inj h]
  | cons s rest ih =>
      obtain ⟨hs, hrest⟩ := List.forall_mem_cons.mp hup
      rw [walk] at h
      cases hstep : d.step at' s with
      | error f =>
          rw [hstep] at h
          exact absurd h (by simp [Except.bind])
      | ok next =>
          rw [hstep] at h
          exact (step_extends hstep hs).2.1.trans (ih h hrest)

/-- **In a tree every way down to a folder is open.** -/
theorem IsTree.walk {d d' : Disk} (h : d.IsTree) {l : Location} (hl : d.entry? l = some .folder)
    {segments : List (List Char)} {at' : Location} (hwalk : d'.walk at' segments = .ok l)
    (hup : ∀ s ∈ segments, s ≠ ['.', '.']) : d.walk at' segments = .ok l := by
  induction segments generalizing at' with
  | nil => exact hwalk
  | cons s rest ih =>
      obtain ⟨hs, hrest⟩ := List.forall_mem_cons.mp hup
      obtain ⟨below, hbelow⟩ := prefix_of_walk hwalk hup
      rw [Disk.walk] at hwalk ⊢
      cases hstep : d'.step at' s with
      | error f =>
          rw [hstep] at hwalk
          exact absurd hwalk (by simp [Except.bind])
      | ok next =>
          rw [hstep] at hwalk
          have hat := h.folder_of_prefix below (hbelow ▸ hl)
          rw [(step_extends hstep hs).2.2 d hat]
          exact ih hwalk hrest

/-! ## New folders -/

/-- A way that leads over new folders either led there before or ended where nothing stood. -/
theorem AddsFolders.walk {places : Location → Prop} {d d' : Disk} (h : AddsFolders places d d')
    {l : Location} {segments : List (List Char)} {at' : Location}
    (hwalk : d'.walk at' segments = .ok l) :
    d.walk at' segments = .ok l ∨ d.walk at' segments = .error .notFound := by
  induction segments generalizing at' with
  | nil => exact Or.inl hwalk
  | cons s rest ih =>
      rw [Disk.walk] at hwalk ⊢
      cases hstep : d'.step at' s with
      | error f =>
          rw [hstep] at hwalk
          exact absurd hwalk (by simp [Except.bind])
      | ok next =>
          rw [hstep] at hwalk
          by_cases hsame : d'.entry? at' = d.entry? at'
          · have hstep' : d.step at' s = .ok next := by
              rw [← hstep]
              unfold step
              rw [hsame]
            rw [hstep']
            exact ih hwalk
          · right
            unfold step
            rw [(h.added at' hsame).1]
            rfl

/-- **A folder that a path leads to after folders were made** was there before, or it is new and no file is
in it.  Then the files of the folder were missing before. -/
theorem AddsFolders.leadsTo {places : Location → Prop} {d d' : Disk} (h : AddsFolders places d d')
    (htree : d.IsTree) {path : List Char} (hup : ∀ s ∈ steps path, s ≠ ['.', '.']) {l : Location}
    (hleads : d'.LeadsTo path l) :
    d.LeadsTo path l
      ∨ (∀ file, IsFileName file → d.read (Path.join path file) = .error .notFound)
        ∧ ∀ name bytes, d'.entry? (l ++ [name]) ≠ some (.file bytes) := by
  have horigin : d'.origin path = d.origin path := by
    unfold origin
    rw [h.working]
  have hwalk : d'.walk (d.origin path) (steps path) = .ok l := horigin ▸ hleads.follow
  by_cases hfolder : d.entry? l = some .folder
  · exact Or.inl ⟨htree.walk hfolder hwalk hup, hfolder⟩
  · right
    have hnone : d.entry? l = none := (h.added l (by rw [hleads.folder]; exact Ne.symm hfolder)).1
    refine ⟨fun file hfile => ?_, fun name bytes hfile => ?_⟩
    · have hlocate : d.locate (Path.join path file) = .error .notFound := by
        rw [Disk.locate_join d path hfile]
        rcases h.walk hwalk with hsame | hmissing
        · rw [show d.follow path = .ok l from hsame]
          simp only [Except.bind, step_isFileName hfile, hnone]
        · rw [show d.follow path = .error .notFound from hmissing]
          rfl
      unfold read
      rw [hlocate]
      rfl
    · -- nothing stood below the folder, and only folders are new
      have hbelow : d.entry? (l ++ [name]) = none := by
        by_contra hsome
        exact hfolder (htree.above l name hsome)
      have hnew := (h.added (l ++ [name]) (by rw [hfile, hbelow]; simp)).2.1
      rw [hfile] at hnew
      exact absurd hnew (by simp)

/-! ## Paths without a name -/

theorem eq_of_component?_eq_none {s : List Char} (h : Path.component? s = none) :
    s = [] ∨ s = ['.'] := by
  unfold Path.component? at h
  split at h
  · next hnone => simpa using hnone
  · split at h <;> exact absurd h (by simp)

/-- A path that goes nowhere up takes no such step. -/
theorem not_up_of_components {path : List Char} (h : .up ∉ Path.components path) :
    ∀ s ∈ steps path, s ≠ ['.', '.'] := by
  rintro s hs rfl
  exact h (List.mem_filterMap.mpr ⟨_, List.mem_of_mem_filter hs, rfl⟩)

/-- A path without components stays where it begins, which is a folder. -/
theorem folder_of_walk_here {d : Disk} {l : Location} {segments : List (List Char)} {at' : Location}
    (hwalk : d.walk at' segments = .ok l) (hhere : ∀ s ∈ segments, s = ['.'])
    (hfolder : segments = [] → d.entry? at' = some .folder) : d.entry? l = some .folder := by
  induction segments generalizing at' with
  | nil =>
      rw [← Except.ok.inj hwalk]
      exact hfolder rfl
  | cons s rest ih =>
      obtain ⟨rfl, hrest⟩ := List.forall_mem_cons.mp hhere
      rw [Disk.walk] at hwalk
      cases hat : d.entry? at' with
      | none =>
          simp only [step, hat] at hwalk
          exact absurd hwalk (by simp [Except.bind])
      | some e =>
          cases e with
          | file bytes =>
              simp only [step, hat] at hwalk
              exact absurd hwalk (by simp [Except.bind])
          | folder =>
              simp only [step, hat, beq_self_eq_true, if_true] at hwalk
              exact ih hwalk hrest fun _ => hat

theorem folder_of_locate_of_components {d : Disk} {path : List Char} {l : Location}
    (h : d.locate path = .ok l) (hnone : Path.components path = []) : d.entry? l = some .folder := by
  obtain ⟨hpath, hfollow⟩ := follow_of_locate h
  have hempty : ∀ s ∈ Text.splitAt '/' path, s = [] ∨ s = ['.'] := fun s hs =>
    eq_of_component?_eq_none (List.filterMap_eq_nil_iff.mp hnone s hs)
  refine folder_of_walk_here hfollow (fun s hs => ?_) fun hsteps => ?_
  · rcases hempty s (List.mem_of_mem_filter hs) with rfl | rfl
    · exact absurd (List.of_mem_filter hs) (by simp)
    · rfl
  · -- only slashes: the path begins at the top
    have hfirst : (Text.splitAt '/' path).head? = some [] := by
      cases hsplit : Text.splitAt '/' path with
      | nil => exact absurd hsplit (Text.splitAt_ne_nil _ _)
      | cons first more =>
          have hdropped := List.filter_eq_nil_iff.mp hsteps first (by rw [hsplit]; exact List.mem_cons_self)
          simpa using hdropped
    have habsolute : Path.isAbsolute path = true := by
      unfold Path.isAbsolute
      rw [(Text.head?_eq_sep_iff hpath).mpr hfirst]
      rfl
    unfold origin
    rw [habsolute, if_pos rfl, entry?_nil]

/-- **A path without components makes no folder.** -/
theorem attemptFolders_of_components {d : Disk} {path : List Char} (h : Path.components path = []) :
    (d.attemptFolders path).2 = d := by
  have hparent : parentPath? path = none := by
    have hdropped : (Text.splitAt '/' path).reverse.dropWhile (fun s => (Path.component? s).isNone) = [] := by
      rw [List.dropWhile_eq_nil_iff]
      intro s hs
      rw [List.filterMap_eq_nil_iff.mp h s (List.mem_reverse.mp hs)]
      rfl
    unfold parentPath?
    simp only [hdropped]
  unfold attemptFolders
  rw [attemptFoldersWithin]
  split
  · rfl
  · split
    · next hmade =>
      obtain ⟨l, hlocate, hfree, -⟩ := makeFolder_eq_ok hmade
      rw [folder_of_locate_of_components hlocate h] at hfree
      exact absurd hfree (by simp)
    · rw [hparent]
    · rfl

end DecoderForge.Disk
