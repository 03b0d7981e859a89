import DecoderForge.Proofs.Config.Shown
import DecoderForge.Proofs.Schema.Inside

/-!
# DecoderForge — a configuration that is saved and loaded

A saved configuration is loaded from its file as it was.  All its fields are in the layers, and the options of the
engine, whose names the layers do not keep, are read once more from the file.  Where the user's file would be a
folder may stand; that is no file, so the layers pass it over, but reading options from it fails.

## The architecture

* **`Layers.readLayer_of_write`**, **`Layers.readEngine_of_write`** — what is read from the saved file.
* **`Layers.readEngines_of_same`** — options that are read from one file, once or more.
* **`Layers.load_of_save_iff`** — when a saved configuration is loaded.
-/

namespace DecoderForge

/-! ## What stays the same -/

/-- Whether a configuration says the same as another.  The acronyms are a set, and options of the engine are told
apart by their names, whatever their order. -/
structure Config.SameAs (c c' : Config) : Prop where
  style : c'.generate.style = c.generate.style
  draft : c'.generate.validator.draft = c.generate.validator.draft
  validateFormats : c'.generate.validator.validateFormats = c.generate.validator.validateFormats
  engine : c'.generate.validator.engine.SameAs c.generate.validator.engine
  decoderName : c'.generate.decoderName = c.generate.decoderName
  pack : c'.generate.pack = c.generate.pack
  acronyms : ∀ a, a ∈ c'.generate.naming.acronyms ↔ a ∈ c.generate.naming.acronyms
  collision : c'.generate.collision = c.generate.collision
  paths : c'.paths = c.paths

theorem mem_distinct {s : String} : ∀ {texts : List String}, s ∈ distinct texts ↔ s ∈ texts
  | [] => Iff.rfl
  | t :: rest => by
      have ih := @mem_distinct s rest
      by_cases h : s = t
      · simp [distinct, h]
      · simp [distinct, h, ih]

theorem mem_sortedTexts {s : String} {texts : List String} : s ∈ sortedTexts texts ↔ s ∈ texts := by
  unfold sortedTexts
  rw [List.mem_mergeSort, mem_distinct]

namespace Disk

variable {d d' : Disk} {path : List Char} {bytes : List UInt8}

theorem find?_of_write (h : d.write path bytes = .ok d') :
    ∃ l, d'.locate path = .ok l ∧ d'.entry? l = some (.file bytes) := by
  obtain ⟨hslash, l, hl, hfolder, rfl⟩ := write_eq_ok h
  have hne : l ≠ [] := by
    rintro rfl
    exact hfolder rfl
  refine ⟨l, (keepsFolders_put hne (.file bytes) hfolder).locate hslash hl, ?_⟩
  rw [entry?_put d hne, if_pos rfl]

theorem read_of_write (h : d.write path bytes = .ok d') : d'.read path = .ok bytes := by
  obtain ⟨l, hl, hentry⟩ := find?_of_write h
  simp only [read, hl, hentry, bind, Except.bind]
  rfl

theorem isFile_of_write (h : d.write path bytes = .ok d') : d'.isFile path = true := by
  obtain ⟨l, hl, hentry⟩ := find?_of_write h
  unfold isFile find?
  rw [hl]
  dsimp only
  rw [hentry]

theorem isFile_of_exists (h : d.exists? path = true) (hfolder : d.isFolder path = false) : d.isFile path = true := by
  unfold exists? at h
  unfold isFolder at hfolder
  unfold isFile
  cases hfound : d.find? path with
  | none => simp [hfound] at h
  | some e => cases e with
    | folder => simp [hfound] at hfolder
    | file bytes => rfl

theorem read_of_isFolder (h : d.isFolder path = true) : d.read path = .error .isADirectory := by
  unfold isFolder find? at h
  unfold read
  cases hl : d.locate path with
  | error f => simp [hl] at h
  | ok l =>
    rw [hl] at h
    have hentry : d.entry? l = some .folder := by simpa using h
    simp only [hentry, bind, Except.bind]
    rfl

end Disk

namespace Toml

/-- Whether a table is read back from the text that is written for it; what is read is in the order of names. -/
def ReadsBack (members : Members) : Prop :=
  read? (print members).toList = some (.table (orderedMembers members))

theorem lookup_membersOfJson {key : String} {j : Json} : ∀ {js : Json.Members} {ms : Members},
    membersOfJson js = .ok ms → js.lookup key = some j → ∃ w, ofJson j = .ok w ∧ ms.lookup key = some w
  | (k, i) :: rest, _, h, hj => by
      obtain ⟨v, vs, hv, hvs, rfl⟩ := Layers.membersOfJson_cons h
      rw [Json.lookup_cons_eq_ite] at hj ⊢
      split at hj
      · rename_i hk
        obtain rfl := Option.some.inj hj
        exact ⟨v, hv, if_pos hk⟩
      · rename_i hk
        rw [if_neg hk]
        exact lookup_membersOfJson hvs hj

/-- What stands in a table that was written and is read in order. -/
theorem get?_ordered {js : Json.Members} {v : Toml} (hv : ofJson (.obj js) = .ok v) (hnodup : js.names.Nodup)
    {key : String} {j : Json} (hj : js.lookup key = some j) :
    ∃ w, ofJson j = .ok w ∧ v.ordered.get? key = some w.ordered := by
  obtain ⟨ms, hms, rfl⟩ := map_eq_ok hv
  obtain ⟨w, hw, hlookup⟩ := lookup_membersOfJson hms hj
  refine ⟨w, hw, ?_⟩
  have hnames : (ms.map Prod.fst).Nodup := Layers.names_membersOfJson hms ▸ hnodup
  show (orderedMembers ms).lookup key = _
  rw [lookup_orderedMembers hnames, hlookup]
  rfl

end Toml

namespace Layers

variable {d d' : Disk} {env : Environment} {path : List Char} {c : Config} {ms : Toml.Members}

/-! ## Where the layers look -/

theorem hasEnding_userFile {name : List Char} (h : userFile? env = some name) : hasEnding name = true := by
  obtain ⟨folder, -, rfl⟩ := Option.map_eq_some_iff.mp h
  have hfolder : Disk.IsFileName "schema-decoders".toList := ⟨by decide, by decide, by decide, by decide⟩
  have hfile : Disk.IsFileName "decoders.toml".toList := ⟨by decide, by decide, by decide, by decide⟩
  have hjoin : Disk.Path.join folder userFile.toList
      = Disk.Path.join (Disk.Path.join folder "schema-decoders".toList) "decoders.toml".toList :=
    (Disk.Path.join_join hfolder hfile folder).symm
  unfold hasEnding
  rw [hjoin, Disk.Path.fileName?_join _ hfile]
  decide

theorem hasEnding_standardFiles : ∀ name ∈ standardFiles.map String.toList, hasEnding name = true := by
  decide

/-- A file with the ending is found under its own name. -/
theorem fileFor?_of_isFile {name : List Char} (hfile : d.isFile name = true) (hending : hasEnding name = true) :
    fileFor? d name = some name := by
  unfold fileFor?
  rw [if_pos hfile, if_pos hending]

/-- Whether there is no configuration file but one where the layers look. -/
def HasNoOther (d : Disk) (env : Environment) (path : List Char) : Prop :=
  ∀ name ∈ standardFiles.map String.toList ++ userFiles d env,
    ∀ found, fileFor? d name = some found → d.locate found = d.locate path

/-! ## The saved file -/

theorem save_eq_ok {path : String} (h : save d path c = .ok d') :
    ∃ ms, Toml.membersOfJson (fileMembers c) = .ok ms
      ∧ d.write path.toList (Text.encode (Toml.print ms).toList) = .ok d' := by
  unfold save Config.toToml at h
  cases hms : Toml.membersOfJson [("generate", .obj c.generate.fileFields), ("paths", c.paths.toJson)] with
  | error f =>
    rw [hms] at h
    cases h
  | ok ms =>
    rw [hms] at h
    refine ⟨ms, hms, ?_⟩
    cases hwrite : d.write path.toList (Text.encode (Toml.print ms).toList) with
    | error f =>
      simp only [Except.map, Except.mapError, bind, Except.bind, hwrite] at h
      cases h
    | ok d'' =>
      simp only [Except.map, Except.mapError, bind, Except.bind, hwrite] at h
      rw [Except.ok.inj h]

theorem readLayer_of_write (hwrite : d.write path (Text.encode (Toml.print ms).toList) = .ok d')
    (hback : Toml.ReadsBack ms) : readLayer d' path = .ok (Toml.orderedMembers ms) := by
  unfold readLayer
  rw [Disk.read_of_write hwrite]
  dsimp only
  rw [Text.decodeLossy_encode, hback]

/-- The options of the engine in a saved file, in the order of their names. -/
theorem engineIn_ordered (hms : Toml.membersOfJson (fileMembers c) = .ok ms) :
    engineIn (.table (Toml.orderedMembers ms)) = Json.sortedMembers c.generate.validator.engine := by
  have hroot : Toml.ofJson (.obj (fileMembers c)) = .ok (.table ms) := congrArg (Except.map Toml.table) hms
  -- from the root down to the engine, each table is found under its name wherever the order has put it
  have hnames : (fileMembers c).names.Nodup := (by decide : ["generate", "paths"].Nodup)
  have hlookup : (fileMembers c).lookup "generate" = some (.obj c.generate.fileFields) := rfl
  obtain ⟨generate, hw, hgenerate⟩ := Toml.get?_ordered hroot hnames hlookup
  obtain ⟨validator, hw, hvalidator⟩ :=
    Toml.get?_ordered hw (areSmall_fileFields _).1 (lookup_fileFields "validator" (by decide))
  let fields : Json.Members := [("draft", .str c.generate.validator.draft.word),
    ("validate_formats", .bool c.generate.validator.validateFormats), ("engine", .obj c.generate.validator.engine)]
  have hnames : fields.names.Nodup := (by decide : ["draft", "validate_formats", "engine"].Nodup)
  have hlookup : fields.lookup "engine" = some (.obj c.generate.validator.engine) := rfl
  obtain ⟨engine, hw, hengine⟩ := Toml.get?_ordered hw hnames hlookup
  have hjson : engine.ordered.toJson = (Json.obj c.generate.validator.engine).sorted := Toml.toJson_ordered _ hw
  unfold engineIn
  rw [show (Toml.table (Toml.orderedMembers ms)).get? "generate" = _ from hgenerate, Option.bind_some, hvalidator,
    Option.bind_some, hengine]
  dsimp only
  rw [hjson]
  rfl

theorem readEngine_of_write (hwrite : d.write path (Text.encode (Toml.print ms).toList) = .ok d')
    (hback : Toml.ReadsBack ms) (hms : Toml.membersOfJson (fileMembers c) = .ok ms) :
    readEngine d' path = .ok (Json.sortedMembers c.generate.validator.engine) := by
  unfold readEngine
  rw [Disk.read_of_write hwrite]
  dsimp only
  rw [Pointer.decode?_encode]
  dsimp only
  rw [hback]
  dsimp only
  rw [engineIn_ordered hms]

theorem insert_eq_self {k : String} {v : Json} : ∀ {found : Json.Members}, found.get? k = some v →
    found.insert k v = found
  | (l, w) :: rest, h => by
      rw [Json.Members.get?_cons] at h
      unfold Json.Members.insert
      split at h
      · rename_i hk
        obtain rfl := Option.some.inj h
        rw [if_pos (beq_iff_eq.mpr hk.symm)]
      · rename_i hk
        rw [if_neg (mt beq_iff_eq.mp (Ne.symm hk)), insert_eq_self h]

/-- Members that are there already are written over themselves. -/
theorem insertAll_eq_self {found : Json.Members} : ∀ {more : Json.Members},
    (∀ m ∈ more, found.get? m.1 = some m.2) → Json.Members.insertAll found more = found
  | [], _ => rfl
  | (k, v) :: more, h => by
      show Json.Members.insertAll (found.insert k v) more = found
      rw [insert_eq_self (h (k, v) List.mem_cons_self)]
      exact insertAll_eq_self fun m hm => h m (List.mem_cons_of_mem _ hm)

/-- **Options that are read from one file**, once or more. -/
theorem readEngines_of_same {table : Json.Members} (hnodup : table.names.Nodup) {paths : List (List Char)}
    (hpaths : ∀ p ∈ paths, readEngine d p = .ok table) (hne : paths ≠ []) : readEngines d [] paths = .ok table := by
  -- the first reading fills the empty table, and each one behind it writes what stands there already
  have hself : Json.Members.insertAll table table = table :=
    insertAll_eq_self fun m hm => Json.get?_of_mem hnodup hm
  have hagain : ∀ {paths}, (∀ p ∈ paths, readEngine d p = .ok table) → readEngines d table paths = .ok table := by
    intro paths hpaths
    induction paths with
    | nil => rfl
    | cons p rest ih =>
      rw [readEngines, hpaths p List.mem_cons_self]
      show readEngines d (Json.Members.insertAll table table) rest = _
      rw [hself]
      exact ih fun q hq => hpaths q (List.mem_cons_of_mem p hq)
  cases paths with
  | nil => exact absurd rfl hne
  | cons p rest =>
    rw [readEngines, hpaths p List.mem_cons_self]
    show readEngines d (Json.Members.insertAll [] table) rest = _
    have hfirst : Json.Members.insertAll [] table = table :=
      Json.Members.insertAll_eq_append hnodup fun _ _ => List.not_mem_nil
    rw [hfirst]
    exact hagain fun q hq => hpaths q (List.mem_cons_of_mem p hq)

/-! ## Loading -/

variable {path : String}

/-- **The layers of a saved file** are that file, laid once or more. -/
theorem layers_of_write (hwrite : d.write path.toList (Text.encode (Toml.print ms).toList) = .ok d')
    (hms : Toml.membersOfJson (fileMembers c) = .ok ms) (hback : Toml.ReadsBack ms)
    (hending : hasEnding path.toList = true) (hother : HasNoOther d' env path.toList)
    (hvariables : ∀ v ∈ env, ofVariable? v.1 v.2 = none) :
    ∃ n, layers d' env (some path) = .ok (timesLaid (Toml.orderedMembers ms) (n + 1)) := by
  have hlayer := readLayer_of_write hwrite hback
  -- a name with dots would lead into the layers; the two names of a configuration have none
  have hnames : ∀ m ∈ Toml.orderedMembers ms, pathOf m.1 = [m.1] := by
    intro m hm
    have hname : m.1 ∈ ["generate", "paths"] := by
      have hmem := (Toml.names_orderedMembers ms).mem_iff.mp (List.mem_map_of_mem hm)
      rwa [names_membersOfJson hms] at hmem
    exact (by decide : ∀ name ∈ ["generate", "paths"], pathOf name = [name]) m.1 hname
  obtain ⟨n, hfiles⟩ := layFiles_eq_timesLaid hlayer hnames 0 hother
  have hexplicit := fileFor?_of_isFile (Disk.isFile_of_write hwrite) hending
  have henv : env.filterMap (fun v => ofVariable? v.1 v.2) = [] := List.filterMap_eq_nil_iff.mpr hvariables
  refine ⟨n, ?_⟩
  have hfiles : layFiles d' [] (standardFiles.map String.toList ++ userFiles d' env)
      = .ok (timesLaid (Toml.orderedMembers ms) n) := hfiles
  simp only [layers, hfiles, hexplicit, hlayer, layEnvironment, henv, bind, Except.bind, Except.map]
  rw [layLayer_eq_layOver hnames]
  rfl

/-- Options are read from every file in turn. -/
theorem readEngine_of_mem : ∀ {paths : List (List Char)} {found spelled : Json.Members},
    readEngines d found paths = .ok spelled → ∀ p ∈ paths, ∃ table, readEngine d p = .ok table
  | q :: rest, _, _, h, p, hp => by
      obtain ⟨table, htable, h⟩ := bind_eq_ok h
      rcases List.mem_cons.mp hp with rfl | hp
      · exact ⟨table, htable⟩
      · exact readEngine_of_mem h p hp

/-- From a folder no options are read. -/
theorem readEngine_ne_ok_of_isFolder {p : List Char} (h : d.isFolder p = true) (table : Json.Members) :
    readEngine d p ≠ .ok table := by
  unfold readEngine
  rw [Disk.read_of_isFolder h]
  intro heq
  cases heq

/-- Loading fails where the options cannot be read. -/
theorem load_eq_error {explicit : Option String} {members : Toml.Members} {base : Config} {e : GenerateError}
    (hlayers : layers d env explicit = .ok members) (hbase : Toml.layerRules.config? (.table members) = some base)
    (hread : readEngines d [] (engineFiles d env explicit) = .error e) : load d env explicit = .error e := by
  simp only [load, hlayers, hread, bind, Except.bind, hbase]

/-- Every file of which options are read is the saved one. -/
theorem locate_of_mem_engineFiles (hfile : d.isFile path.toList = true) (hother : HasNoOther d env path.toList)
    (hfolder : ∀ q ∈ userFiles d env, d.isFolder q = false) {p : List Char} (hp : p ∈ engineFiles d env (some path)) :
    d.locate p = d.locate path.toList := by
  unfold engineFiles at hp
  rcases List.mem_append.mp hp with hp | hp
  · -- the user's file is only asked whether it is there, so that it is a file has to be known
    have hlook : p ∈ standardFiles.map String.toList ++ userFiles d env ∧ d.isFile p = true ∧ hasEnding p = true := by
      rcases List.mem_append.mp hp with hp | hp
      · obtain ⟨hmem, hisFile⟩ := List.mem_filter.mp hp
        exact ⟨List.mem_append_left _ hmem, hisFile, hasEnding_standardFiles p hmem⟩
      · obtain ⟨huser, hexists⟩ := List.mem_filter.mp hp
        have hisFile := Disk.isFile_of_exists hexists (hfolder p hp)
        exact ⟨List.mem_append_right _ hp, hisFile, hasEnding_userFile (Option.mem_toList.mp huser)⟩
    exact hother p hlook.1 p (fileFor?_of_isFile hlook.2.1 hlook.2.2)
  · have hagain : engineFile? d path.toList = some path.toList := if_pos hfile
    dsimp only at hp
    rw [hagain] at hp
    rw [List.mem_singleton.mp hp]

/-- Options that the layers have in small letters at most make way for those that are read. -/
theorem respell_eq_self {current spelled : Json.Members} (hnodup : spelled.names.Nodup)
    (h : ∀ key ∈ current.names, ∃ m ∈ spelled, Toml.lowerCased m.1 = key) : respell current spelled = spelled := by
  have hnone : unspelled current spelled = [] := by
    refine List.filter_eq_nil_iff.mpr fun m hm => ?_
    obtain ⟨s, hs, heq⟩ := h m.1 (List.mem_map_of_mem hm)
    simpa using ⟨s.1, ⟨s.2, hs⟩, heq⟩
  rw [respell_eq, hnone]
  exact Json.Members.insertAll_eq_append hnodup fun _ _ => List.not_mem_nil

theorem withEngine_shownOptions {engine spelled : Json.Members} (h : respell engine spelled = spelled) (c : Config) :
    withEngine { c with generate := shownOptions c.generate engine } spelled
      = { c with generate := shownOptions c.generate spelled } := by
  unfold withEngine
  split
  · rename_i hempty
    obtain rfl := List.isEmpty_iff.mp hempty
    rw [respell_nil] at h
    rw [h]
  · show Config.mk (shownOptions c.generate (respell engine spelled)) _ = _
    rw [h]

/-- The configuration that the layers of a saved file form, but for the options of the engine. -/
theorem config?_of_fileMembers (hms : Toml.membersOfJson (fileMembers c) = .ok ms) (n : Nat) :
    ∃ engine, Toml.layerRules.config? (.table (timesLaid (Toml.orderedMembers ms) (n + 1)))
        = some { c with generate := shownOptions c.generate engine }
      ∧ ∀ key ∈ engine.names, ∃ m ∈ c.generate.validator.engine, Toml.lowerCased m.1 = key := by
  have hroot : Toml.ofJson (.obj (fileMembers c)) = .ok (.table ms) := congrArg (Except.map Toml.table) hms
  exact config?_of_shows ⟨_, hroot, rfl⟩

/-- **The configuration that is loaded from a saved file** is the one that was saved, the acronyms and the options
of the engine in order. -/
theorem load_of_write (hnames : Json.MembersHaveDistinctNames c.generate.validator.engine)
    (hwrite : d.write path.toList (Text.encode (Toml.print ms).toList) = .ok d')
    (hms : Toml.membersOfJson (fileMembers c) = .ok ms) (hback : Toml.ReadsBack ms)
    (hending : hasEnding path.toList = true) (hother : HasNoOther d' env path.toList)
    (hvariables : ∀ v ∈ env, ofVariable? v.1 v.2 = none)
    (hfolder : ∀ q ∈ userFiles d' env, d'.isFolder q = false) :
    load d' env (some path) = .ok { c with
      generate := shownOptions c.generate (Json.sortedMembers c.generate.validator.engine) } := by
  obtain ⟨n, hlayers⟩ := layers_of_write hwrite hms hback hending hother hvariables
  obtain ⟨engine, hconfig, hsmall⟩ := config?_of_fileMembers hms n
  have hfile := Disk.isFile_of_write hwrite
  have htable : ∀ p ∈ engineFiles d' env (some path),
      readEngine d' p = .ok (Json.sortedMembers c.generate.validator.engine) := by
    intro p hp
    rw [readEngine_congr (locate_of_mem_engineFiles hfile hother hfolder hp)]
    exact readEngine_of_write hwrite hback hms
  have hnodup : (Json.Members.names (Json.sortedMembers c.generate.validator.engine)).Nodup :=
    (Json.names_sortedMembers _).nodup_iff.mpr hnames.nodup
  have hne : engineFiles d' env (some path) ≠ [] := by
    have hagain : engineFile? d' path.toList = some path.toList := if_pos hfile
    unfold engineFiles
    dsimp only
    rw [hagain]
    exact List.append_ne_nil_of_right_ne_nil _ (List.cons_ne_nil _ _)
  rw [load_eq hlayers hconfig (readEngines_of_same hnodup htable hne)]
  have hspelled : ∀ key ∈ engine.names, ∃ m ∈ Json.sortedMembers c.generate.validator.engine,
      Toml.lowerCased m.1 = key := by
    intro key hkey
    obtain ⟨m, hm, rfl⟩ := hsmall key hkey
    exact ⟨_, (Json.sortedMembers_perm _).mem_iff.mpr (List.mem_map_of_mem hm), rfl⟩
  rw [withEngine_shownOptions (respell_eq_self hnodup hspelled)]

/-- **When a saved configuration is loaded as it was.**  No other configuration file is where the layers look and no
variable speaks of options.  Then the configuration comes back from its file, unless a folder stands in the place
of the user's file. -/
theorem load_of_save_iff (hnames : Json.MembersHaveDistinctNames c.generate.validator.engine)
    (hback : ∀ ms, Toml.membersOfJson (fileMembers c) = .ok ms → Toml.ReadsBack ms)
    (hending : hasEnding path.toList = true) (hsave : save d path c = .ok d')
    (hother : HasNoOther d' env path.toList) (hvariables : ∀ v ∈ env, ofVariable? v.1 v.2 = none) :
    (∃ c', load d' env (some path) = .ok c' ∧ c.SameAs c')
      ↔ ∀ q, userFile? env = some q → d'.isFolder q = false := by
  obtain ⟨ms, hms, hwrite⟩ := save_eq_ok hsave
  constructor
  · rintro ⟨c', hload, -⟩ q hq
    by_contra hfolder
    rw [Bool.not_eq_false] at hfolder
    obtain ⟨members, hmembers, -⟩ := bind_eq_ok hload
    obtain ⟨base, spelled, -, hspelled, -⟩ := engine_of_load hload hmembers
    -- a folder is there, so the options are read from it too, which fails
    have hexists : d'.exists? q = true := by
      unfold Disk.isFolder at hfolder
      unfold Disk.exists?
      rw [beq_iff_eq.mp hfolder]
      rfl
    have hmem : q ∈ engineFiles d' env (some path) :=
      List.mem_append_left _ (List.mem_append_right _ (List.mem_filter.mpr ⟨Option.mem_toList.mpr hq, hexists⟩))
    obtain ⟨table, htable⟩ := readEngine_of_mem hspelled q hmem
    exact readEngine_ne_ok_of_isFolder hfolder table htable
  · intro hfolder
    have husers : ∀ q ∈ userFiles d' env, d'.isFolder q = false := by
      intro q hq
      exact hfolder q (Option.mem_toList.mp (List.mem_of_mem_filter hq))
    refine ⟨_, load_of_write hnames hwrite hms (hback ms hms) hending hother hvariables husers, ?_⟩
    exact {
      style := rfl, draft := rfl, validateFormats := rfl, decoderName := rfl, pack := rfl, collision := rfl,
      paths := rfl
      engine := Json.map_sorted_get?_sortedMembers hnames
      acronyms := fun _ => mem_sortedTexts }

/-! ## A saved file, and a folder in the place of the user's -/

section Sample

/-- A configuration with capitals in the names of its engine options. -/
def savedConfig : Config where
  generate := { validator := { engine := [("Formats", .obj [("dateTime", .bool true)])] } }
  paths := { input := some "schema.json" }

/-- The members of its file. -/
def savedMembers : Toml.Members :=
  [("generate", .table [("pack", .bool true), ("collision", .str "error"),
      ("style", .table [("tab_width", .int 2), ("use_tabs", .bool false), ("single_quote", .bool true),
        ("end_of_line", .str "lf")]),
      ("validator", .table [("draft", .str "draft7"), ("validate_formats", .bool true),
        ("engine", .table [("Formats", .table [("dateTime", .bool true)])])]),
      ("naming", .table [("acronyms", .arr [])])]),
    ("paths", .table [("input", .str "schema.json")])]

theorem membersOfJson_savedConfig : Toml.membersOfJson (fileMembers savedConfig) = .ok savedMembers := by
  have hacronyms : sortedTexts [] = [] := by simp [sortedTexts, distinct]
  unfold fileMembers savedConfig GenerateOptions.fileFields Naming.toJson
  rw [hacronyms]
  rfl

set_option maxRecDepth 4000 in
theorem readsBack_savedMembers : Toml.ReadsBack savedMembers := by
  unfold Toml.ReadsBack Toml.print
  rw [String.toList_ofList]
  decide +kernel

theorem readsBack_savedConfig (ms : Toml.Members) (h : Toml.membersOfJson (fileMembers savedConfig) = .ok ms) :
    Toml.ReadsBack ms := by
  obtain rfl := Except.ok.inj (membersOfJson_savedConfig.symm.trans h)
  exact readsBack_savedMembers

/-- The home folder of the user. -/
def homeVariable : Environment := [("HOME", "/work/home")]

theorem homeVariable_is_none : ∀ v ∈ homeVariable, ofVariable? v.1 v.2 = none := by
  decide

/-- A disk with a working folder and nothing else. -/
def plainDisk : Disk := Disk.withFolder ["work"]

/-- A disk with a folder in the place of the user's file. -/
def folderDisk : Disk :=
  { Disk.withFolder ["work", "home", ".config", "schema-decoders", "decoders.toml"] with workingFolder := ["work"] }

/-- The bytes of the saved file. -/
def savedBytes : List UInt8 := Text.encode (Toml.print savedMembers).toList

theorem save_savedConfig (hwrite : d.write path.toList savedBytes = .ok d') : save d path savedConfig = .ok d' := by
  have htext : savedConfig.toToml = .ok (Toml.print savedMembers) :=
    congrArg (Except.map Toml.print) membersOfJson_savedConfig
  unfold save
  rw [htext]
  show Except.mapError SaveFault.file (d.write path.toList savedBytes) = _
  rw [hwrite]
  rfl

theorem hasNoOther_of_none (h : ∀ name ∈ standardFiles.map String.toList ++ userFiles d env, fileFor? d name = none)
    (path : List Char) : HasNoOther d env path := by
  intro name hname found hfound
  rw [h name hname] at hfound
  cases hfound

/-- A configuration comes back with the names of its engine options, where the user has no file. -/
theorem load_of_save_capitals : ∃ d' c', save plainDisk "my.toml" savedConfig = .ok d'
    ∧ load d' homeVariable (some "my.toml") = .ok c' ∧ savedConfig.SameAs c' := by
  let saved : Disk := plainDisk.put ["work", "my.toml"] (.file savedBytes)
  have hsave : save plainDisk "my.toml" savedConfig = .ok saved := save_savedConfig rfl
  have hnone : ∀ name ∈ standardFiles.map String.toList ++ userFiles saved homeVariable,
      fileFor? saved name = none :=
    List.forall_mem_cons.mpr ⟨rfl, List.forall_mem_cons.mpr ⟨rfl, List.forall_mem_cons.mpr ⟨rfl, List.forall_mem_nil _⟩⟩⟩
  have hnames : Json.MembersHaveDistinctNames savedConfig.generate.validator.engine := by
    simp [savedConfig, Json.MembersHaveDistinctNames, Json.HasDistinctNames, Json.Members.names]
  have hfolder : ∀ q, userFile? homeVariable = some q → saved.isFolder q = false := by
    intro q hq
    obtain rfl := Option.some.inj hq
    rfl
  obtain ⟨c', hload, hsame⟩ := (load_of_save_iff hnames readsBack_savedConfig (by decide) hsave
    (hasNoOther_of_none hnone _) homeVariable_is_none).mpr hfolder
  exact ⟨saved, c', hsave, hload, hsame⟩

/-- **A folder in the place of the user's file stops the loading**, though it is no configuration file. -/
theorem folder_stops_load : ∃ d', save folderDisk "my.toml" savedConfig = .ok d'
    ∧ HasNoOther d' homeVariable "my.toml".toList ∧ (∀ v ∈ homeVariable, ofVariable? v.1 v.2 = none)
    ∧ load d' homeVariable (some "my.toml") = .error .io := by
  let saved : Disk := folderDisk.put ["work", "my.toml"] (.file savedBytes)
  have hwrite : folderDisk.write "my.toml".toList savedBytes = .ok saved := rfl
  have hnone : ∀ name ∈ standardFiles.map String.toList ++ userFiles saved homeVariable,
      fileFor? saved name = none :=
    List.forall_mem_cons.mpr ⟨rfl, List.forall_mem_cons.mpr ⟨rfl, List.forall_mem_cons.mpr ⟨rfl,
      List.forall_mem_cons.mpr ⟨rfl, List.forall_mem_nil _⟩⟩⟩⟩
  have hother := hasNoOther_of_none hnone "my.toml".toList
  refine ⟨saved, save_savedConfig hwrite, hother, homeVariable_is_none, ?_⟩
  obtain ⟨n, hlayers⟩ := layers_of_write hwrite membersOfJson_savedConfig readsBack_savedMembers (by decide) hother
    homeVariable_is_none
  obtain ⟨engine, hconfig, -⟩ := config?_of_fileMembers membersOfJson_savedConfig n
  have hfiles : engineFiles saved homeVariable (some "my.toml")
      = ["/work/home/.config/schema-decoders/decoders.toml".toList, "my.toml".toList] := rfl
  have hread : readEngine saved "/work/home/.config/schema-decoders/decoders.toml".toList = .error .io := by
    have hfolder : saved.isFolder "/work/home/.config/schema-decoders/decoders.toml".toList = true := rfl
    unfold readEngine
    rw [Disk.read_of_isFolder hfolder]
  refine load_eq_error hlayers hconfig ?_
  rw [hfiles, readEngines, hread]
  rfl

end Sample

end Layers

end DecoderForge
