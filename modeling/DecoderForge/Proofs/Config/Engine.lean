import DecoderForge.Proofs.Config.SmallLetters
import DecoderForge.Proofs.Json.Members
import DecoderForge.Proofs.Schema.Pointer
import DecoderForge.Validation.Equality

/-!
# DecoderForge — engine options and their spelling

The layers know the options of the engine in small letters only.  So the options are read once more from the
files, as they are spelled there, and take the place of those of the layers.  What the environment says of an
option, and what an earlier file says inside of one, is in the layers but not in the options that are read.

## The architecture

* **`Json.smallLetters`** — a value as the layers know it.
* **`Layers.engine_of_config?`** — the options of the layers are the table there.
* **`Layers.readEngines_ok`** — the run over the files: what was written last stands.
* **`Layers.get?_small_respell`** — options that are put in place of others, in small letters.
* **`Layers.small_engine_eq_layered_iff`** — when the options are those of the layers in another spelling.
-/

namespace DecoderForge

namespace Json

mutual

/-- A value with names in small letters, all the way down to a list.  Of members whose names become the same
the last counts. -/
def smallLetters : Json → Json
  | .obj members => .obj (Members.insertAll [] (allSmallLetters members))
  | v => v

/-- Members one by one in small letters. -/
def allSmallLetters : List (String × Json) → List (String × Json)
  | [] => []
  | (name, v) :: rest => (Toml.lowerCased name, v.smallLetters) :: allSmallLetters rest

end

/-- Members with names in small letters. -/
def Members.small (members : Members) : Members := .insertAll [] (allSmallLetters members)

/-- Whether members are the same but for their order. -/
def Members.SameAs (members others : Members) : Prop :=
  ∀ name, (members.get? name).map sorted = (others.get? name).map sorted

theorem allSmallLetters_append : ∀ first second : Members,
    allSmallLetters (first ++ second) = allSmallLetters first ++ allSmallLetters second
  | [], _ => rfl
  | (_, _) :: rest, second => congrArg (_ :: ·) (allSmallLetters_append rest second)

/-- Members are in small letters when they are so one by one. -/
theorem allSmallLetters_eq_self_iff : ∀ {members : Members}, allSmallLetters members = members
    ↔ ∀ m ∈ members, Toml.lowerCased m.1 = m.1 ∧ m.2.smallLetters = m.2
  | [] => by simp [allSmallLetters]
  | (name, v) :: rest => by
      have ih := @allSmallLetters_eq_self_iff rest
      simp [allSmallLetters, ih]

/-- A name in small letters is that of a member. -/
theorem mem_names_allSmallLetters {key : String} : ∀ {members : Members},
    key ∈ Members.names (allSmallLetters members) ↔ ∃ m ∈ members, Toml.lowerCased m.1 = key
  | [] => by simp [allSmallLetters, Members.names]
  | (name, v) :: rest => by
      have ih := @mem_names_allSmallLetters key rest
      simp only [Members.names] at ih
      simp [allSmallLetters, Members.names, ih, eq_comm]

theorem Members.get?_small (members : Members) (key : String) :
    members.small.get? key = Members.get? (allSmallLetters members).reverse key := by
  rw [Members.small, Members.get?_insertAll]
  exact Option.or_none

end Json

/-! ## Options of the layers -/

namespace Toml

theorem names_membersToJson (datetime : String → Json) : ∀ members : Members,
    Json.Members.names (membersToJson datetime members) = members.map Prod.fst
  | [] => rfl
  | (name, _) :: rest => congrArg (name :: ·) (names_membersToJson datetime rest)

mutual

/-- A value in small letters is in small letters as JSON, a date being a text there. -/
theorem smallLetters_toJson : ∀ {v : Toml}, InSmallLetters v →
    (v.toJsonWith Json.str).smallLetters = v.toJsonWith Json.str
  | .table members, h => by
      have hnodup : (Json.Members.names (membersToJson Json.str members)).Nodup := by
        rw [names_membersToJson]
        exact h.nodup_names
      rw [toJsonWith, Json.smallLetters, allSmallLetters_toJson h]
      exact congrArg Json.obj (Json.Members.insertAll_eq_append hnodup fun _ _ => List.not_mem_nil)
  | .str _, _ | .int _, _ | .bool _, _ | .datetime _, _ | .arr _, _ | .float (.finite _), _
  | .float (.infinite _), _ | .float .nan, _ => rfl

theorem allSmallLetters_toJson : ∀ {members : List (String × Toml)}, MembersInSmallLetters members →
    Json.allSmallLetters (membersToJson Json.str members) = membersToJson Json.str members
  | [], _ => rfl
  | (name, v) :: rest, ⟨⟨hname, _⟩, hv, hrest⟩ => by
      rw [membersToJson, Json.allSmallLetters, hname, smallLetters_toJson hv, allSmallLetters_toJson hrest]

end

end Toml

namespace Layers

/-- The table of engine options in layers. -/
def engineTable (members : Toml.Members) : Toml.Members :=
  membersOf ((((Toml.table members).get? "generate").bind (·.get? "validator")).bind (·.get? "engine"))

/-- The engine options in layers. -/
def engineOptions (members : Toml.Members) : Json.Members := Toml.membersToJson Json.str (engineTable members)

/-- Whether the tables above the engine options are written as tables, not as lists of their values. -/
def IsNamed (members : Toml.Members) : Prop :=
  (∀ items, (Toml.table members).get? "generate" ≠ some (.arr items))
    ∧ ∀ items, ((Toml.table members).get? "generate").bind (·.get? "validator") ≠ some (.arr items)

theorem get?_inSmallLetters {v w : Toml} {name : String} (hv : Toml.InSmallLetters v) (h : v.get? name = some w) :
    Toml.InSmallLetters w := by
  cases v with
  | table members => exact Toml.MembersInSmallLetters.lookup hv h
  | _ => exact absurd h nofun

theorem engineTable_inSmallLetters {members : Toml.Members} (h : Toml.MembersInSmallLetters members) :
    Toml.MembersInSmallLetters (engineTable members) := by
  refine membersOf_inSmallLetters fun engine hengine => ?_
  obtain ⟨validator, hvalidator, hengine⟩ := Option.bind_eq_some_iff.mp hengine
  obtain ⟨generate, hgenerate, hvalidator⟩ := Option.bind_eq_some_iff.mp hvalidator
  have hroot : Toml.InSmallLetters (.table members) := h
  exact get?_inSmallLetters (get?_inSmallLetters (get?_inSmallLetters hroot hgenerate) hvalidator) hengine

section Reading

open ScalarRules (field)

/-- A field that is read is there, or it has its default. -/
theorem field_eq_some {V α : Type} {fields : List (String × V)} {name : String} {read : V → Option α}
    {default a : α} (h : field fields name read default = some a) :
    (∃ v, fields.lookup name = some v ∧ read v = some a) ∨ fields.lookup name = none ∧ default = a := by
  unfold field at h
  split at h
  · rename_i v hv
    exact .inl ⟨v, hv, h⟩
  · rename_i hnone
    exact .inr ⟨hnone, Option.some.inj h⟩

/-- A record that is no list is a table. -/
theorem eq_table_of_record? {names : List String} {v : Toml} {fields : Toml.Members}
    (h : Toml.layerRules.record? names v = some fields) (hv : ∀ items, v ≠ .arr items) : v = .table fields := by
  cases v with
  | table members => exact congrArg Toml.table (Option.some.inj h)
  | arr items => exact absurd rfl (hv items)
  | _ => exact absurd h nofun

theorem engine_of_validator? {v : Toml} {o : ValidatorOptions} (h : Toml.layerRules.validator? v = some o)
    (hv : ∀ items, v ≠ .arr items) : o.engine = Toml.membersToJson Json.str (membersOf (v.get? "engine")) := by
  simp only [ScalarRules.validator?, Option.bind_eq_bind, Option.bind_eq_some_iff, Option.pure_def,
    Option.some.injEq] at h
  obtain ⟨fields, hfields, draft, -, formats, -, engine, hengine, rfl⟩ := h
  obtain rfl := eq_table_of_record? hfields hv
  rcases field_eq_some hengine with ⟨w, hw, hread⟩ | ⟨hnone, rfl⟩
  · cases w with
    | table members =>
      rw [Toml.get?, hw]
      exact (Option.some.inj hread).symm
    | _ => exact absurd hread nofun
  · rw [Toml.get?, hnone]
    rfl

theorem engine_of_generate? {v : Toml} {o : GenerateOptions} (h : Toml.layerRules.generate? v = some o)
    (hv : ∀ items, v ≠ .arr items) (hvalidator : ∀ items, v.get? "validator" ≠ some (.arr items)) :
    o.validator.engine
      = Toml.membersToJson Json.str (membersOf ((v.get? "validator").bind (·.get? "engine"))) := by
  simp only [ScalarRules.generate?, Option.bind_eq_bind, Option.bind_eq_some_iff, Option.pure_def,
    Option.some.injEq] at h
  obtain ⟨fields, hfields, style, -, validator, hread, name, -, pack, -, naming, -, collision, -, rfl⟩ := h
  obtain rfl := eq_table_of_record? hfields hv
  rcases field_eq_some hread with ⟨w, hw, hread⟩ | ⟨hnone, rfl⟩
  · rw [Toml.get?, hw]
    refine engine_of_validator? hread fun items heq => ?_
    exact hvalidator items (hw.trans (congrArg some heq))
  · rw [Toml.get?, hnone]
    rfl

/-- **The options of the layers are the table there.** -/
theorem engine_of_config? {members : Toml.Members} {c : Config}
    (h : Toml.layerRules.config? (.table members) = some c) (hnamed : IsNamed members) :
    c.generate.validator.engine = engineOptions members := by
  simp only [ScalarRules.config?, Option.bind_eq_bind, Option.bind_eq_some_iff, Option.pure_def,
    Option.some.injEq] at h
  obtain ⟨fields, hfields, generate, hread, paths, -, rfl⟩ := h
  obtain rfl : members = fields := Option.some.inj hfields
  unfold engineOptions engineTable
  obtain ⟨hgenerate, hvalidator⟩ := hnamed
  rw [Toml.get?] at hgenerate hvalidator ⊢
  rcases field_eq_some hread with ⟨w, hw, hread⟩ | ⟨hnone, rfl⟩
  · rw [hw] at hgenerate hvalidator ⊢
    exact engine_of_generate? hread (fun items heq => hgenerate items (congrArg some heq)) hvalidator
  · rw [hnone]
    rfl

end Reading

/-! ## Options of the files -/

/-- **The run over the files**: their options are written in turn, so that the last of a spelling stands. -/
theorem readEngines_ok {d : Disk} : ∀ {paths : List (List Char)} {found spelled : Json.Members},
    readEngines d found paths = .ok spelled → ∃ tables : List Json.Members,
      List.Forall₂ (fun path table => readEngine d path = .ok table) paths tables
        ∧ spelled = .insertAll found tables.flatten
  | [], _, _, h => ⟨[], .nil, (Except.ok.inj h).symm⟩
  | path :: rest, found, _, h => by
      obtain ⟨table, htable, h⟩ := bind_eq_ok h
      obtain ⟨tables, htables, rfl⟩ := readEngines_ok h
      refine ⟨table :: tables, .cons htable htables, ?_⟩
      rw [List.flatten_cons, Json.Members.insertAll_append]
      rfl

/-! ## Options in place of others -/

section Respell

variable {current spelled : Json.Members}

/-- The options of the layers that are not spelled in another way. -/
def unspelled (current spelled : Json.Members) : Json.Members :=
  current.filter fun m => !spelled.any fun s => Toml.lowerCased s.1 == m.1

theorem respell_eq (current spelled : Json.Members) :
    respell current spelled = (unspelled current spelled).insertAll spelled := rfl

/-- The options that are read stand as they are spelled. -/
theorem get?_respell_of_spelled (hnodup : spelled.names.Nodup) {name : String} {v : Json}
    (h : spelled.get? name = some v) : (respell current spelled).get? name = some v := by
  rw [respell_eq, Json.Members.get?_insertAll, Json.Members.get?_reverse hnodup, h]
  rfl

/-- An option of the layers stays unless it is spelled in another way. -/
theorem get?_unspelled {key : String} (h : ¬ ∃ s ∈ spelled, Toml.lowerCased s.1 = key) :
    ∀ current : Json.Members, (unspelled current spelled).get? key = current.get? key
  | [] => rfl
  | (k, v) :: rest => by
      have ih := get?_unspelled h rest
      unfold unspelled at ih ⊢
      rw [List.filter_cons, Json.Members.get?_cons]
      split
      · rw [Json.Members.get?_cons, ih]
      · rename_i hspelled
        have hne : key ≠ k := by
          rintro rfl
          refine hspelled ?_
          simpa using fun s hs heq => h ⟨s, hs, heq⟩
        rw [if_neg hne, ih]

/-- **Options put in place of others, in small letters**: those that are read, over those of the layers. -/
theorem get?_small_respell (hsmall : Json.allSmallLetters current = current) (hcurrent : current.names.Nodup)
    (hspelled : spelled.names.Nodup) (key : String) :
    (respell current spelled).small.get? key = (spelled.small.get? key).or (current.get? key) := by
  have hone := Json.allSmallLetters_eq_self_iff.mp hsmall
  have hkept : Json.allSmallLetters (unspelled current spelled) = unspelled current spelled :=
    Json.allSmallLetters_eq_self_iff.mpr fun m hm => hone m (List.mem_of_mem_filter hm)
  have hnodup : (unspelled current spelled).names.Nodup := hcurrent.sublist (List.filter_sublist.map _)
  -- an option of the layers that is spelled just so is among those that are replaced
  have happend : respell current spelled = unspelled current spelled ++ spelled := by
    refine Json.Members.insertAll_eq_append hspelled fun k hk hk' => ?_
    obtain ⟨s, hs, rfl⟩ := List.mem_map.mp hk
    obtain ⟨m, hm, hms⟩ := List.mem_map.mp hk'
    obtain ⟨hm, hunspelled⟩ := List.mem_filter.mp hm
    have hlower : Toml.lowerCased s.1 = m.1 := by rw [← hms, (hone m hm).1]
    simp only [Bool.not_eq_true', List.any_eq_false, beq_iff_eq] at hunspelled
    exact hunspelled s hs hlower
  rw [happend, Json.Members.get?_small, Json.allSmallLetters_append, List.reverse_append, Json.Members.get?_append,
    ← Json.Members.get?_small, hkept, Json.Members.get?_reverse hnodup]
  by_cases h : ∃ s ∈ spelled, Toml.lowerCased s.1 = key
  · have hkey : key ∈ Json.Members.names (Json.allSmallLetters spelled).reverse := by
      rw [Json.Members.names, List.map_reverse, List.mem_reverse]
      exact Json.mem_names_allSmallLetters.mpr h
    obtain ⟨v, hv⟩ := Json.Members.exists_get? hkey
    rw [Json.Members.get?_small, hv]
    rfl
  · rw [get?_unspelled h]

/-- So it is with the options of layers, which are in small letters. -/
theorem get?_small_engineOptions {members : Toml.Members} (hmembers : Toml.MembersInSmallLetters members)
    (hspelled : spelled.names.Nodup) (key : String) :
    (respell (engineOptions members) spelled).small.get? key
      = (spelled.small.get? key).or ((engineOptions members).get? key) := by
  have hnames : (engineOptions members).names.Nodup := by
    rw [engineOptions, Toml.names_membersToJson]
    exact (engineTable_inSmallLetters hmembers).nodup_names
  exact get?_small_respell (Toml.allSmallLetters_toJson (engineTable_inSmallLetters hmembers)) hnames hspelled key

end Respell

/-! ## The loaded options -/

theorem respell_nil (current : Json.Members) : respell current [] = current :=
  List.filter_eq_self.mpr fun _ _ => rfl

section Load

variable {d : Disk} {env : Environment} {explicit : Option String} {config : Config} {members : Toml.Members}

/-- A loaded configuration has the options of the files in place of those of the layers. -/
theorem engine_of_load (hload : load d env explicit = .ok config) (hlayers : layers d env explicit = .ok members) :
    ∃ base spelled, Toml.layerRules.config? (.table members) = some base
      ∧ readEngines d [] (engineFiles d env explicit) = .ok spelled
      ∧ config.generate.validator.engine = respell base.generate.validator.engine spelled := by
  unfold load at hload
  rw [hlayers] at hload
  obtain ⟨_, hmembers, hload⟩ := bind_eq_ok hload
  obtain rfl := Except.ok.inj hmembers
  split at hload
  · exact absurd hload nofun
  · rename_i base hbase
    obtain ⟨spelled, hspelled, hload⟩ := bind_eq_ok hload
    obtain rfl := Except.ok.inj hload
    refine ⟨base, spelled, hbase, hspelled, ?_⟩
    unfold withEngine
    split
    · rename_i hempty
      rw [List.isEmpty_iff.mp hempty, respell_nil]
    · rfl

/-- **When the engine options are those of the layers in another spelling.**  Each option stands as the last file
that spells it so has it.  In small letters the options are those of the layers exactly when the layers have
each option that is read from the files, with the value that it has there: where the environment says
otherwise, or an earlier file says more, the file has the last word. -/
theorem small_engine_eq_layered_iff (hload : load d env explicit = .ok config)
    (hlayers : layers d env explicit = .ok members) (hnamed : IsNamed members) :
    ∃ tables : List Json.Members,
      List.Forall₂ (fun path table => readEngine d path = .ok table) (engineFiles d env explicit) tables
        ∧ (∀ name v, Json.Members.get? tables.flatten.reverse name = some v
          → config.generate.validator.engine.get? name = some v)
        ∧ (config.generate.validator.engine.small.SameAs (engineOptions members)
          ↔ ∀ name v, (Json.Members.insertAll [] tables.flatten).small.get? name = some v
            → ∃ w, (engineOptions members).get? name = some w ∧ w.sorted = v.sorted) := by
  obtain ⟨base, spelled, hbase, hspelled, hengine⟩ := engine_of_load hload hlayers
  obtain ⟨tables, htables, rfl⟩ := readEngines_ok hspelled
  refine ⟨tables, htables, ?_⟩
  rw [engine_of_config? hbase hnamed] at hengine
  have hnodup : (Json.Members.insertAll [] tables.flatten).names.Nodup :=
    Json.Members.nodup_insertAll List.Pairwise.nil
  rw [hengine]
  constructor
  · intro name v hv
    refine get?_respell_of_spelled hnodup ?_
    rw [Json.Members.get?_insertAll, hv]
    rfl
  · -- name by name: what is read counts, and only where nothing is read the layers do
    refine forall_congr' fun name => ?_
    rw [get?_small_engineOptions (layers_inSmallLetters hlayers) hnodup]
    cases (Json.Members.insertAll [] tables.flatten).small.get? name with
    | none => simp
    | some v =>
      constructor
      · intro h u hu
        obtain rfl := Option.some.inj hu
        exact Option.map_eq_some_iff.mp h.symm
      · intro h
        obtain ⟨w, hw, hvalue⟩ := h v rfl
        rw [Option.some_or, hw, Option.map_some, Option.map_some, hvalue]

/-- What is laid together, read and read again is loaded. -/
theorem load_eq {base : Config} {spelled : Json.Members} (hlayers : layers d env explicit = .ok members)
    (hbase : Toml.layerRules.config? (.table members) = some base)
    (hspelled : readEngines d [] (engineFiles d env explicit) = .ok spelled) :
    load d env explicit = .ok (withEngine base spelled) := by
  simp only [load, hlayers, hspelled, bind, Except.bind, hbase]
  rfl

end Load

/-! ## One file and one variable -/

section Sample

/-- A disk with one engine option in a file. -/
def optionDisk : Disk :=
  (Disk.withFolder ["work"]).put ["work", "decoders.toml"]
    (.file (Text.encode "[generate.validator.engine]\nallErrors = true\n".toList))

/-- An environment with one engine option. -/
def optionVariable (name value : String) : Environment :=
  [("DECODERS__GENERATE__VALIDATOR__ENGINE__" ++ name, value)]

/-- Layers with engine options only. -/
def optionLayers (options : Toml.Members) : Toml.Members :=
  [("generate", .table [("validator", .table [("engine", .table options)])])]

theorem optionLayers_isNamed (options : Toml.Members) : IsNamed (optionLayers options) := ⟨nofun, nofun⟩

/-- What the file says. -/
def optionText : List Char := "[generate.validator.engine]\nallErrors = true\n".toList

theorem read_optionDisk : optionDisk.read "decoders.toml".toList = .ok (Text.encode optionText) := rfl

theorem read_optionText : Toml.read? optionText = some (.table (optionLayers [("allErrors", .bool true)])) := by
  decide +kernel

theorem readLayer_optionDisk :
    readLayer optionDisk "decoders.toml".toList = .ok (optionLayers [("allErrors", .bool true)]) := by
  have hlossy : Text.decodeLossy (Text.encode optionText) = optionText := by decide +kernel
  simp only [readLayer, read_optionDisk, hlossy, read_optionText]

theorem readEngine_optionDisk : readEngine optionDisk "decoders.toml".toList = .ok [("allErrors", .bool true)] := by
  simp only [readEngine, read_optionDisk, Pointer.decode?_encode, read_optionText]
  rfl

variable {env : Environment}

/-- The environment comes behind the file. -/
theorem layers_optionDisk (husers : userFiles optionDisk env = []) :
    layers optionDisk env none = .ok (layEnvironment (optionLayers [("allerrors", .bool true)]) env) := by
  have hfirst : fileFor? optionDisk "decoders.toml".toList = some "decoders.toml".toList := by decide
  have hsecond : fileFor? optionDisk ".decoders.toml".toList = none := by decide
  have hthird : fileFor? optionDisk "config/decoders.toml".toList = none := by decide
  have hlay : layLayer [] (optionLayers [("allErrors", .bool true)]) = optionLayers [("allerrors", .bool true)] := by
    decide +kernel
  simp only [layers, husers, List.append_nil, standardFiles, List.map_cons, List.map_nil, layFiles, layFile, hfirst,
    hsecond, hthird, readLayer_optionDisk, Except.map, hlay]
  rfl

/-- The options are read from the file alone. -/
theorem engineFiles_optionDisk (husers : userFiles optionDisk env = []) :
    engineFiles optionDisk env none = ["decoders.toml".toList] := by
  have hfiles : (standardFiles.map String.toList).filter optionDisk.isFile = ["decoders.toml".toList] := by
    decide
  rw [engineFiles, husers, hfiles]
  rfl

theorem readEngines_optionDisk (husers : userFiles optionDisk env = []) :
    readEngines optionDisk [] (engineFiles optionDisk env none) = .ok [("allErrors", .bool true)] := by
  simp only [engineFiles_optionDisk husers, readEngines, readEngine_optionDisk]
  rfl

/-- A variable is laid at the path that its name spells. -/
theorem layEnvironment_optionVariable {name value : String} {rest : List Char} {path : List String}
    (hrest : Text.dropStart? variableStart
      (Toml.lowerCased ("DECODERS__GENERATE__VALIDATOR__ENGINE__" ++ name)).toList = some rest)
    (hpath : pathOf (String.ofList (Text.replaceAll ['_', '_'] ['.'] rest)) = path) (below : Toml.Members) :
    layEnvironment below (optionVariable name value) = layAt below (Toml.ofText value) path := by
  have hvariable : ofVariable? ("DECODERS__GENERATE__VALIDATOR__ENGINE__" ++ name) value
      = some (path, Toml.ofText value) := by
    rw [ofVariable?, hrest, Option.map_some, hpath]
  simp [layEnvironment, optionVariable, hvariable]

/-- An option that only the environment has is added, and the one of the file keeps its value. -/
theorem small_engine_eq_layered_verbose : ∃ config members,
    load optionDisk (optionVariable "VERBOSE" "true") none = .ok config
      ∧ layers optionDisk (optionVariable "VERBOSE" "true") none = .ok members ∧ IsNamed members
      ∧ config.generate.validator.engine.get? "allErrors" = some (.bool true)
      ∧ config.generate.validator.engine.small.SameAs (engineOptions members) := by
  have husers : userFiles optionDisk (optionVariable "VERBOSE" "true") = [] := by decide
  have hlay : layEnvironment (optionLayers [("allerrors", .bool true)]) (optionVariable "VERBOSE" "true")
      = optionLayers [("allerrors", .bool true), ("verbose", .bool true)] := by
    have hpath : Text.replaceAll ['_', '_'] ['.'] "generate__validator__engine__verbose".toList
        = "generate.validator.engine.verbose".toList := by
      simp [Text.replaceAll_pair_of_ne, Text.replaceAll_pair_occurrence, Text.replaceAll_nil]
    rw [layEnvironment_optionVariable (by decide +kernel) (congrArg (pathOf ∘ String.ofList) hpath)]
    decide +kernel
  have hlayers := hlay ▸ layers_optionDisk husers
  have hload := load_eq hlayers rfl (readEngines_optionDisk husers)
  refine ⟨_, _, hload, hlayers, optionLayers_isNamed _, ?_⟩
  obtain ⟨tables, htables, hverbatim, hiff⟩ := small_engine_eq_layered_iff hload hlayers (optionLayers_isNamed _)
  rw [engineFiles_optionDisk husers] at htables
  obtain _ | ⟨htable, htables⟩ := htables
  cases htables
  obtain rfl := Except.ok.inj (readEngine_optionDisk.symm.trans htable)
  refine ⟨hverbatim "allErrors" _ rfl, hiff.mpr fun name v hv => ?_⟩
  -- the file spells one option, which the layers have in small letters
  have hsmall : (Json.Members.insertAll [] [[("allErrors", .bool true)]].flatten).small
      = [("allerrors", .bool true)] := rfl
  rw [hsmall, Json.Members.get?_cons] at hv
  split at hv
  · rename_i hname
    subst hname
    obtain rfl := Option.some.inj hv
    exact ⟨.bool true, rfl, rfl⟩
  · exact absurd hv (by simp [Json.Members.get?])

/-- **An option that a file spells is not what the environment makes of it.**  The layers have the value of the
environment, the configuration that of the file. -/
theorem variable_loses_to_file : ∃ config members,
    load optionDisk (optionVariable "ALLERRORS" "false") none = .ok config
      ∧ layers optionDisk (optionVariable "ALLERRORS" "false") none = .ok members
      ∧ config.generate.validator.engine = [("allErrors", .bool true)]
      ∧ engineOptions members = [("allerrors", .bool false)]
      ∧ ¬ config.generate.validator.engine.small.SameAs (engineOptions members) := by
  have husers : userFiles optionDisk (optionVariable "ALLERRORS" "false") = [] := by decide
  have hlay : layEnvironment (optionLayers [("allerrors", .bool true)]) (optionVariable "ALLERRORS" "false")
      = optionLayers [("allerrors", .bool false)] := by
    have hpath : Text.replaceAll ['_', '_'] ['.'] "generate__validator__engine__allerrors".toList
        = "generate.validator.engine.allerrors".toList := by
      simp [Text.replaceAll_pair_of_ne, Text.replaceAll_pair_occurrence, Text.replaceAll_nil]
    rw [layEnvironment_optionVariable (by decide +kernel) (congrArg (pathOf ∘ String.ofList) hpath)]
    decide +kernel
  have hlayers := hlay ▸ layers_optionDisk husers
  have hrespell : respell [("allerrors", .bool false)] [("allErrors", .bool true)] = [("allErrors", .bool true)] := rfl
  have hsmall : Json.Members.small [("allErrors", .bool true)] = [("allerrors", .bool true)] := rfl
  refine ⟨_, _, load_eq hlayers rfl (readEngines_optionDisk husers), hlayers, hrespell, rfl, fun hsame => ?_⟩
  have hvalue : Json.Members.SameAs (Json.Members.small [("allErrors", .bool true)]) [("allerrors", .bool false)] :=
    hrespell ▸ hsame
  rw [hsmall] at hvalue
  exact absurd (hvalue "allerrors") (by decide)

end Sample

end Layers

end DecoderForge
