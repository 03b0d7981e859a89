import DecoderForge.Proofs.Config.Engine
import DecoderForge.Proofs.Disk.LastNames
import DecoderForge.Proofs.Text.LossyDecoding

/-!
# DecoderForge — the file that was asked for

The layers look for a file under the name that was asked for, and behind that name with the ending.  The options
of the engine are read from the file of that name too, but else from the one with the ending in place of its own.
Where a name has an ending of its own these are two files, and the options come from the wrong one.

## The architecture

* **`Layers.engineFile?_finds_iff`** — when both searches end at one place.
* **`Layers.get?_engine_of_last`** — the options of the file that is read last stand in the result.
* **`Layers.explicit_engine_iff`** — a loaded configuration with a file that was asked for.
-/

namespace DecoderForge

namespace Disk

variable {d : Disk} {path path' : List Char}

theorem isFile_congr (h : d.locate path = d.locate path') : d.isFile path = d.isFile path' := by
  unfold isFile find?
  rw [h]

theorem read_congr (h : d.locate path = d.locate path') : d.read path = d.read path' := by
  unfold read
  rw [h]

theorem exists_locate_of_isFile (h : d.isFile path = true) : ∃ l, d.locate path = .ok l := by
  unfold isFile find? at h
  cases hl : d.locate path with
  | ok l => exact ⟨l, rfl⟩
  | error f =>
    rw [hl] at h
    cases h

end Disk

namespace Layers

open Disk.Path (fileName? hasExtension trimEnd withExtension)

variable {d : Disk} {env : Environment} {name : String} {config : Config}

/-! ## Two searches -/

/-- **Both searches end at one place** exactly where the name is that of a file, or has no ending to lose. -/
theorem engineFile?_finds_iff {name path : List Char} (hpath : fileFor? d name = some path) :
    (∃ again, engineFile? d name = some again ∧ d.locate again = d.locate path)
      ↔ d.isFile name = true ∨ hasExtension name = false := by
  unfold fileFor? at hpath
  unfold engineFile?
  by_cases hfile : d.isFile name = true
  · -- the name is that of a file: both searches stop there
    rw [if_pos hfile] at hpath ⊢
    split at hpath
    · obtain rfl := Option.some.inj hpath
      exact ⟨fun _ => .inl hfile, fun _ => ⟨name, rfl, rfl⟩⟩
    · cases hpath
  · -- one search goes on behind the whole name, the other behind its stem
    rw [if_neg hfile] at hpath ⊢
    dsimp only at hpath ⊢
    split at hpath
    · rename_i hfound
      rw [Bool.and_eq_true] at hfound
      obtain ⟨hname, hthere⟩ := hfound
      obtain rfl := Option.some.inj hpath
      obtain ⟨l, hl⟩ := Disk.exists_locate_of_isFile hthere
      have hsame : d.locate (withExtension name ending) = .ok l ↔ hasExtension name = false :=
        Disk.locate_ending_eq_iff hname (by decide) (by decide) hl
      constructor
      · rintro ⟨again, hagain, hlocate⟩
        split at hagain
        · obtain rfl := Option.some.inj hagain
          exact .inr (hsame.mp (hlocate.trans hl))
        · cases hagain
      · rintro (h | h)
        · exact absurd h hfile
        · have hlocate : d.locate (withExtension name ending) = d.locate (trimEnd name ++ ['.'] ++ ending) :=
            (hsame.mpr h).trans hl.symm
          refine ⟨_, if_pos ?_, hlocate⟩
          rwa [Disk.isFile_congr hlocate]
    · cases hpath

/-- The options of a file are those of the place that its path leads to. -/
theorem readEngine_congr {path path' : List Char} (h : d.locate path = d.locate path') :
    readEngine d path = readEngine d path' := by
  unfold readEngine
  rw [Disk.read_congr h]

/-! ## Options that are read last -/

theorem readEngines_append : ∀ (first second : List (List Char)) (found : Json.Members),
    readEngines d found (first ++ second)
      = (readEngines d found first).bind fun between => readEngines d between second
  | [], _, _ => rfl
  | path :: rest, second, found => by
      show (readEngine d path).bind _ = ((readEngine d path).bind _).bind _
      cases readEngine d path with
      | error e => rfl
      | ok more => exact readEngines_append rest second _

/-- **The options of the file that is read last stand in the result**, each as it is spelled there. -/
theorem get?_engine_of_last {explicit : Option String} {front : List (List Char)} {path : List Char}
    (h : load d env explicit = .ok config) (hlast : engineFiles d env explicit = front ++ [path]) :
    ∃ options, readEngines d [] [path] = .ok options
      ∧ ∀ key v, options.get? key = some v → config.generate.validator.engine.get? key = some v := by
  obtain ⟨members, hmembers, -⟩ := bind_eq_ok h
  obtain ⟨base, spelled, -, hspelled, hengine⟩ := engine_of_load h hmembers
  have hnodup : spelled.names.Nodup := by
    obtain ⟨tables, -, rfl⟩ := readEngines_ok hspelled
    exact Json.Members.nodup_insertAll List.Pairwise.nil
  rw [hlast, readEngines_append] at hspelled
  obtain ⟨between, -, hspelled⟩ := bind_eq_ok hspelled
  obtain ⟨table, htable, hspelled⟩ := bind_eq_ok hspelled
  obtain rfl := Except.ok.inj hspelled
  refine ⟨Json.Members.insertAll [] table, ?_, fun key v hv => ?_⟩
  · show (readEngine d path).bind _ = _
    rw [htable]
    rfl
  · rw [hengine]
    refine get?_respell_of_spelled hnodup ?_
    -- an option of the table takes the place of one that was read before
    rw [Json.Members.get?_insertAll] at hv
    have hthere : Json.Members.get? table.reverse key = some v := Option.or_none.symm.trans hv
    rw [show List.foldl _ between table = Json.Members.insertAll between table from rfl,
      Json.Members.get?_insertAll, hthere]
    rfl

/-! ## The file that was asked for -/

/-- What was asked for is laid over all other files and under the environment. -/
theorem layers_explicit {members : Toml.Members} (h : layers d env (some name) = .ok members) :
    ∃ path below layer, fileFor? d name.toList = some path ∧ readLayer d path = .ok layer
      ∧ layFiles d [] (standardFiles.map String.toList ++ userFiles d env) = .ok below
      ∧ members = layEnvironment (layLayer below layer) env := by
  obtain ⟨below, hbelow, h⟩ := bind_eq_ok h
  dsimp only at h
  split at h
  · cases h
  · rename_i path hpath
    obtain ⟨laid, hlaid, h⟩ := bind_eq_ok h
    obtain ⟨layer, hlayer, rfl⟩ := map_eq_ok hlaid
    exact ⟨path, below, layer, hpath, hlayer, hbelow, (Except.ok.inj h).symm⟩

/-- **When the options of the file that was asked for are read again.**  A configuration that is loaded has taken
the values of one file over those of all others.  The options of the engine are read from that file exactly where
the name is that of a file itself, or its last name has no ending.  Then each option of that file stands in the
result as it is spelled there; else the file, if one is read, is another. -/
theorem explicit_engine_iff (h : load d env (some name) = .ok config) :
    ∃ path below layer, fileFor? d name.toList = some path ∧ readLayer d path = .ok layer
      ∧ layers d env (some name) = .ok (layEnvironment (layLayer below layer) env)
      ∧ ((∃ again, engineFile? d name.toList = some again ∧ d.locate again = d.locate path)
        ↔ d.isFile name.toList = true ∨ hasExtension name.toList = false)
      ∧ (d.isFile name.toList = true ∨ hasExtension name.toList = false →
        ∃ options, readEngines d [] [path] = .ok options
          ∧ ∀ key v, options.get? key = some v → config.generate.validator.engine.get? key = some v) := by
  obtain ⟨members, hmembers, -⟩ := bind_eq_ok h
  obtain ⟨path, below, layer, hpath, hlayer, -, rfl⟩ := layers_explicit hmembers
  have hiff := engineFile?_finds_iff hpath
  refine ⟨path, below, layer, hpath, hlayer, hmembers, hiff, fun hplain => ?_⟩
  obtain ⟨again, hagain, hlocate⟩ := hiff.mpr hplain
  -- the file that was asked for is read last, so nothing is written over its options
  have hlast : engineFiles d env (some name)
      = (standardFiles.map String.toList).filter d.isFile ++ userFiles d env ++ [again] := by
    unfold engineFiles
    dsimp only
    rw [hagain]
    rfl
  obtain ⟨options, hoptions, hstand⟩ := get?_engine_of_last h hlast
  refine ⟨options, ?_, hstand⟩
  simpa only [readEngines, readEngine_congr hlocate] using hoptions

/-! ## A file beside another -/

section Sample

/-- What the other file says. -/
def verboseText : List Char := "[generate.validator.engine]\nallErrors = false\nverbose = true\n".toList

/-- The options in the other file. -/
def verboseOptions : Json.Members := [("allErrors", .bool false), ("verbose", .bool true)]

/-- A disk with two files, the name of one that of the other with an ending more. -/
def pairDisk : Disk :=
  ((Disk.withFolder ["work"]).put ["work", "my.conf.toml"] (.file (Text.encode optionText))).put
    ["work", "my.toml"] (.file (Text.encode verboseText))

theorem read_verboseText : Toml.read? verboseText
    = some (.table (optionLayers [("allErrors", .bool false), ("verbose", .bool true)])) := by
  decide +kernel

theorem readLayer_pairDisk :
    readLayer pairDisk "my.conf.toml".toList = .ok (optionLayers [("allErrors", .bool true)])
      ∧ readLayer pairDisk "my.toml".toList
        = .ok (optionLayers [("allErrors", .bool false), ("verbose", .bool true)]) := by
  have hoption : pairDisk.read "my.conf.toml".toList = .ok (Text.encode optionText) := rfl
  have hverbose : pairDisk.read "my.toml".toList = .ok (Text.encode verboseText) := rfl
  constructor
  · simp only [readLayer, hoption, Text.decodeLossy_encode, read_optionText]
  · simp only [readLayer, hverbose, Text.decodeLossy_encode, read_verboseText]

theorem readEngine_pairDisk : readEngine pairDisk "my.conf.toml".toList = .ok [("allErrors", .bool true)]
    ∧ readEngine pairDisk "my.toml".toList = .ok verboseOptions := by
  have hoption : pairDisk.read "my.conf.toml".toList = .ok (Text.encode optionText) := rfl
  have hverbose : pairDisk.read "my.toml".toList = .ok (Text.encode verboseText) := rfl
  constructor
  · simp only [readEngine, hoption, Pointer.decode?_encode, read_optionText]
    rfl
  · simp only [readEngine, hverbose, Pointer.decode?_encode, read_verboseText]
    rfl

/-- The file that was asked for is the only layer. -/
theorem layers_pairDisk {path : List Char} {layer : Toml.Members}
    (hpath : fileFor? pairDisk name.toList = some path) (hlayer : readLayer pairDisk path = .ok layer) :
    layers pairDisk [] (some name) = .ok (layLayer [] layer) := by
  have hfirst : fileFor? pairDisk "decoders.toml".toList = none := by decide
  have hsecond : fileFor? pairDisk ".decoders.toml".toList = none := by decide
  have hthird : fileFor? pairDisk "config/decoders.toml".toList = none := by decide
  have husers : userFiles pairDisk [] = [] := rfl
  have hbelow : layFiles pairDisk [] (standardFiles.map String.toList ++ userFiles pairDisk []) = .ok [] := by
    simp only [husers, List.append_nil, standardFiles, List.map_cons, List.map_nil, layFiles, layFile, hfirst, hsecond,
      hthird, bind, Except.bind]
  simp only [layers, hbelow, hpath, hlayer, bind, Except.bind, Except.map]
  rfl

/-- The options are read from one file. -/
theorem engineFiles_pairDisk : engineFiles pairDisk [] (some name) = (engineFile? pairDisk name.toList).toList := by
  have hfiles : (standardFiles.map String.toList).filter pairDisk.isFile = [] := by decide
  rw [engineFiles, hfiles]
  rfl

theorem readEngines_pairDisk (hagain : engineFile? pairDisk name.toList = some "my.toml".toList) :
    readEngines pairDisk [] (engineFiles pairDisk [] (some name)) = .ok verboseOptions := by
  simp only [engineFiles_pairDisk, hagain, Option.toList, readEngines, readEngine_pairDisk.2]
  rfl

/-- The options of a file that was asked for by a name without an ending are all there. -/
theorem explicit_engine_plain : ∃ config, load pairDisk [] (some "my") = .ok config
    ∧ fileFor? pairDisk "my".toList = some "my.toml".toList
    ∧ ∀ key v, Json.Members.get? verboseOptions key = some v → config.generate.validator.engine.get? key = some v := by
  have hpath : fileFor? pairDisk "my".toList = some "my.toml".toList := by decide
  have hagain : engineFile? pairDisk "my".toList = some "my.toml".toList := by decide
  have hlay : layLayer [] (optionLayers [("allErrors", .bool false), ("verbose", .bool true)])
      = optionLayers [("allerrors", .bool false), ("verbose", .bool true)] := by decide +kernel
  have hlayers := hlay ▸ layers_pairDisk hpath readLayer_pairDisk.2
  have hload := load_eq hlayers rfl (readEngines_pairDisk hagain)
  obtain ⟨path, -, -, hfound, -, -, -, hstand⟩ := explicit_engine_iff hload
  obtain rfl := Option.some.inj (hpath.symm.trans hfound)
  obtain ⟨options, hoptions, hthere⟩ := hstand (.inr (by decide))
  have hread : readEngines pairDisk [] ["my.toml".toList] = .ok verboseOptions := by
    simp only [readEngines, readEngine_pairDisk.2]
    rfl
  obtain rfl := Except.ok.inj (hread.symm.trans hoptions)
  exact ⟨_, hload, hpath, hthere⟩

/-- **A name with an ending: the options are those of the file beside the one that was asked for.**  The layers take
their values from one file, and its options are nowhere in the result. -/
theorem dotted_name_loses_options : ∃ config, load pairDisk [] (some "my.conf") = .ok config
    ∧ fileFor? pairDisk "my.conf".toList = some "my.conf.toml".toList
    ∧ engineFile? pairDisk "my.conf".toList = some "my.toml".toList
    ∧ readEngine pairDisk "my.conf.toml".toList = .ok [("allErrors", .bool true)]
    ∧ config.generate.validator.engine = [("allErrors", .bool false), ("verbose", .bool true)] := by
  have hpath : fileFor? pairDisk "my.conf".toList = some "my.conf.toml".toList := by decide
  have hagain : engineFile? pairDisk "my.conf".toList = some "my.toml".toList := by decide
  have hlay : layLayer [] (optionLayers [("allErrors", .bool true)]) = optionLayers [("allerrors", .bool true)] := by
    decide +kernel
  have hlayers := hlay ▸ layers_pairDisk hpath readLayer_pairDisk.1
  exact ⟨_, load_eq hlayers rfl (readEngines_pairDisk hagain), hpath, hagain, readEngine_pairDisk.1, rfl⟩

end Sample

end Layers

end DecoderForge
