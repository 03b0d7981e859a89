import DecoderForge.Proofs.Config.OneFile

/-!
# DecoderForge — a saved configuration in the layers

All fields of a configuration are written, and their names are in small letters.  So the layers show each of them
as it was written, whichever number of times the file was laid.  Only the names of engine options are not as they
were: there the layers have nothing but small letters.

## The architecture

* **`Layers.Shows`** — what the layers have of a value that was written.
* **`Layers.Shows.fields`** — a record, field by field.
* **`Layers.config?_of_shows`** — the configuration that the layers form.
-/

namespace DecoderForge.Layers

open ScalarRules (field)

variable {n : Nat} {t : Toml}

/-! ## Values as they are written -/

theorem membersOfJson_cons {k : String} {j : Json} {rest : Json.Members} {ms : Toml.Members}
    (h : Toml.membersOfJson ((k, j) :: rest) = .ok ms) :
    ∃ v vs, Toml.ofJson j = .ok v ∧ Toml.membersOfJson rest = .ok vs ∧ ms = (k, v) :: vs := by
  obtain ⟨v, hv, h⟩ := bind_eq_ok h
  obtain ⟨vs, hvs, h⟩ := bind_eq_ok h
  exact ⟨v, vs, hv, hvs, (Except.ok.inj h).symm⟩

theorem names_membersOfJson {js : Json.Members} {ms : Toml.Members} (h : Toml.membersOfJson js = .ok ms) :
    ms.map Prod.fst = js.names := by
  induction js generalizing ms with
  | nil =>
    obtain rfl := Except.ok.inj h
    rfl
  | cons m rest ih =>
    obtain ⟨v, vs, -, hvs, rfl⟩ := membersOfJson_cons h
    exact congrArg (m.1 :: ·) (ih hvs)

/-- **What the layers have** of a value that was written, after its file was laid once or more. -/
def Shows (n : Nat) (j : Json) (t : Toml) : Prop := ∃ v, Toml.ofJson j = .ok v ∧ t = standing (n + 1) v.ordered

/-- What the layers have of a member, if there is one. -/
def ShowsMember (n : Nat) : Option Json → Option Toml → Prop
  | some j, some t => Shows n j t
  | none, none => True
  | _, _ => False

theorem showsMember_lookup (key : String) {js : Json.Members} {ms : Toml.Members}
    (h : Toml.membersOfJson js = .ok ms) :
    ShowsMember n (js.lookup key) ((ms.lookup key).map fun v => standing (n + 1) v.ordered) := by
  induction js generalizing ms with
  | nil =>
    obtain rfl := Except.ok.inj h
    trivial
  | cons m rest ih =>
    obtain ⟨v, vs, hv, hvs, rfl⟩ := membersOfJson_cons h
    rw [Json.lookup_cons_eq_ite, Json.lookup_cons_eq_ite]
    split
    · exact ⟨v, hv, rfl⟩
    · exact ih hvs

/-- Whether names are in small letters, each once. -/
def AreSmall (names : List String) : Prop := names.Nodup ∧ ∀ name ∈ names, Toml.lowerCased name = name

theorem hasSmallNames_orderedMembers {js : Json.Members} {ms : Toml.Members} (hms : Toml.membersOfJson js = .ok ms)
    (h : AreSmall js.names) : HasSmallNames (Toml.orderedMembers ms) := by
  have hnames := Toml.names_orderedMembers ms
  rw [names_membersOfJson hms] at hnames
  refine ⟨hnames.nodup_iff.mpr h.1, fun m hm => ?_⟩
  exact h.2 m.1 (hnames.mem_iff.mp (List.mem_map_of_mem hm))

/-- **A record, field by field.** -/
theorem Shows.fields {js : Json.Members} (h : Shows n (.obj js) t) (hsmall : AreSmall js.names) :
    ∃ fields, t = .table fields ∧ ∀ key, ShowsMember n (js.lookup key) (fields.lookup key) := by
  obtain ⟨v, hv, rfl⟩ := h
  obtain ⟨ms, hms, rfl⟩ := map_eq_ok hv
  refine ⟨_, rfl, fun key => ?_⟩
  have hnodup : (ms.map Prod.fst).Nodup := names_membersOfJson hms ▸ hsmall.1
  rw [lookup_timesLaid (hasSmallNames_orderedMembers hms hsmall), Toml.lookup_orderedMembers hnodup, Option.map_map]
  exact showsMember_lookup key hms

section Fields

variable {α : Type} {js : Json.Members} {fields : Toml.Members} {read : Toml → Option α} {a : α}

/-- A member that was written is there. -/
theorem lookup_of_shows (name : String) {j : Json} (h : ∀ key, ShowsMember n (js.lookup key) (fields.lookup key))
    (hj : js.lookup name = some j) : ∃ t, fields.lookup name = some t ∧ Shows n j t := by
  have hmember := h name
  rw [hj] at hmember
  cases ht : fields.lookup name with
  | none =>
    rw [ht] at hmember
    exact hmember.elim
  | some t =>
    rw [ht] at hmember
    exact ⟨t, rfl, hmember⟩

/-- A field that was written is read. -/
theorem field_of_shows (name : String) (default : α) {j : Json}
    (h : ∀ key, ShowsMember n (js.lookup key) (fields.lookup key)) (hj : js.lookup name = some j)
    (hread : ∀ t, Shows n j t → read t = some a) : field fields name read default = some a := by
  obtain ⟨t, ht, hshows⟩ := lookup_of_shows name h hj
  rw [field, ht]
  exact hread t hshows

/-- A field that was left out has its default. -/
theorem field_of_absent (name : String) (default : α)
    (h : ∀ key, ShowsMember n (js.lookup key) (fields.lookup key)) (hj : js.lookup name = none) :
    field fields name read default = some default := by
  have hmember := h name
  rw [hj] at hmember
  unfold field
  cases ht : fields.lookup name with
  | none => rfl
  | some t =>
    rw [ht] at hmember
    exact hmember.elim

end Fields

/-! ## Scalars -/

theorem flag?_of_shows {b : Bool} (h : Shows n (.bool b) t) : Toml.layerRules.flag? t = some b := by
  obtain ⟨v, hv, rfl⟩ := h
  obtain rfl := Except.ok.inj hv
  rfl

theorem text?_of_shows {s : String} (h : Shows n (.str s) t) : Toml.layerRules.text? t = some s := by
  obtain ⟨v, hv, rfl⟩ := h
  obtain rfl := Except.ok.inj hv
  rfl

theorem word?_of_shows {s : String} (h : Shows n (.str s) t) : Toml.layerRules.word? t = some (Toml.lowerCased s) := by
  obtain ⟨v, hv, rfl⟩ := h
  obtain rfl := Except.ok.inj hv
  rfl

theorem nat?_of_shows {k : Nat} (h : Shows n (.ofInt k) t) : Toml.layerRules.nat? t = some k := by
  obtain ⟨v, hv, rfl⟩ := h
  unfold Json.ofInt Toml.ofJson at hv
  split at hv
  · obtain rfl := Except.ok.inj hv
    show (if (0 : Int) ≤ k then some (k : Int).toNat else none) = some k
    rw [if_pos (Int.natCast_nonneg k), Int.toNat_natCast]
  · cases hv

theorem itemsOfJson_strings : ∀ texts : List String,
    Toml.itemsOfJson (texts.map Json.str) = .ok (texts.map Toml.str)
  | [] => rfl
  | s :: texts => by
      rw [List.map_cons, Toml.itemsOfJson, itemsOfJson_strings texts]
      rfl

theorem orderedItems_strings : ∀ texts : List String, Toml.orderedItems (texts.map Toml.str) = texts.map Toml.str
  | [] => rfl
  | s :: texts => congrArg (Toml.str s :: ·) (orderedItems_strings texts)

theorem mapM_text?_strings : ∀ texts : List String, (texts.map Toml.str).mapM Toml.text? = some texts
  | [] => rfl
  | s :: texts => by
      rw [List.map_cons, List.mapM_cons, mapM_text?_strings texts]
      rfl

theorem texts?_of_shows {texts : List String} (h : Shows n (.arr (texts.map .str)) t) :
    Toml.layerRules.texts? t = some texts := by
  obtain ⟨v, hv, rfl⟩ := h
  obtain ⟨vs, hvs, rfl⟩ := map_eq_ok hv
  obtain rfl := Except.ok.inj ((itemsOfJson_strings texts).symm.trans hvs)
  show ((Toml.orderedItems (texts.map Toml.str)).mapM Toml.text?) = some texts
  rw [orderedItems_strings, mapM_text?_strings]

/-! ## Names in small letters -/

-- The layers have names, and the words that choose among constructors, in small letters.  Those of a configuration
-- are written in small letters, so both lists are as they were.

def words : List String := ["lf", "crlf", "error", "disambiguate", "draft4", "draft6", "draft7"]

def fieldNames : List String :=
  ["generate", "paths", "input", "output", "decoder_name", "pack", "collision", "style", "validator", "naming",
    "tab_width", "use_tabs", "single_quote", "end_of_line", "draft", "validate_formats", "engine", "acronyms"]

theorem lowerCased_word : ∀ s ∈ words ++ fieldNames, Toml.lowerCased s = s := by
  decide

theorem areSmall_of_subset {names : List String} (h : names ⊆ fieldNames) (hnodup : names.Nodup) : AreSmall names :=
  ⟨hnodup, fun name hname => lowerCased_word name (List.mem_append_right _ (h hname))⟩

theorem AreSmall.sublist {names names' : List String} (h : AreSmall names) (hsub : names'.Sublist names) :
    AreSmall names' :=
  ⟨h.1.sublist hsub, fun name hname => h.2 name (hsub.subset hname)⟩

theorem names_optionalField (name : String) (s : Option String) :
    (Json.Members.names (optionalField name s)).Sublist [name] := by
  cases s with
  | none => exact List.nil_sublist _
  | some s => exact List.Sublist.refl _

theorem word?_of_shows_word {s : String} (hs : s ∈ words) (h : Shows n (.str s) t) :
    Toml.layerRules.word? t = some s := by
  rw [word?_of_shows h, lowerCased_word s (List.mem_append_left _ hs)]

theorem endOfLine?_of_shows {e : EndOfLine} (h : Shows n (.str e.word) t) :
    Toml.layerRules.endOfLine? t = some e := by
  have hword := word?_of_shows_word (by cases e <;> decide) h
  unfold ScalarRules.endOfLine?
  rw [hword]
  cases e <;> rfl

theorem collision?_of_shows {p : CollisionPolicy} (h : Shows n (.str p.word) t) :
    Toml.layerRules.collision? t = some p := by
  have hword := word?_of_shows_word (by cases p <;> decide) h
  unfold ScalarRules.collision?
  rw [hword]
  cases p <;> rfl

theorem draft?_of_shows {d : Draft} (h : Shows n (.str d.word) t) : Toml.layerRules.draft? t = some d := by
  have hword := word?_of_shows_word (by cases d <;> decide) h
  unfold ScalarRules.draft?
  rw [hword]
  cases d <;> rfl

/-! ## Records -/

theorem record?_table (names : List String) (fields : Toml.Members) :
    Toml.layerRules.record? names (.table fields) = some fields := rfl

theorem style?_of_shows {s : Style} (h : Shows n s.toJson t) : Toml.layerRules.style? t = some s := by
  have hsmall : AreSmall ["tab_width", "use_tabs", "single_quote", "end_of_line"] :=
    areSmall_of_subset (by decide) (by decide)
  obtain ⟨fields, rfl, hfields⟩ := h.fields hsmall
  have htab := field_of_shows "tab_width" 2 hfields rfl fun _ => nat?_of_shows
  have htabs := field_of_shows "use_tabs" false hfields rfl fun _ => flag?_of_shows
  have hquote := field_of_shows "single_quote" true hfields rfl fun _ => flag?_of_shows
  have hend := field_of_shows "end_of_line" .lf hfields rfl fun _ => endOfLine?_of_shows
  simp only [ScalarRules.style?, record?_table, htab, htabs, hquote, hend, Option.bind_eq_bind, Option.bind_some,
    Option.pure_def]

theorem naming?_of_shows {o : Naming} (h : Shows n o.toJson t) :
    Toml.layerRules.naming? t = some ⟨sortedTexts o.acronyms⟩ := by
  have hsmall : AreSmall ["acronyms"] := areSmall_of_subset (by decide) (by decide)
  obtain ⟨fields, rfl, hfields⟩ := h.fields hsmall
  have hacronyms := field_of_shows "acronyms" [] hfields rfl fun _ => texts?_of_shows
  simp only [ScalarRules.naming?, record?_table, hacronyms, Option.bind_eq_bind, Option.bind_some, Option.pure_def]

/-- The options of the engine are those of the configuration by their names in small letters, at most. -/
theorem table?_of_shows {engine : Json.Members} (h : Shows n (.obj engine) t) :
    ∃ options, Toml.layerRules.table? t = some options
      ∧ ∀ key ∈ options.names, ∃ m ∈ engine, Toml.lowerCased m.1 = key := by
  obtain ⟨v, hv, rfl⟩ := h
  obtain ⟨ms, hms, rfl⟩ := map_eq_ok hv
  refine ⟨_, rfl, fun key hkey => ?_⟩
  -- two names that differ in capitals become one, so nothing is said of the values here
  rw [Toml.names_membersToJson] at hkey
  obtain ⟨m, hm, rfl⟩ := mem_names_timesLaid hkey
  have hname : m.1 ∈ engine.names := by
    rw [← names_membersOfJson hms]
    exact (Toml.names_orderedMembers ms).mem_iff.mp (List.mem_map_of_mem hm)
  obtain ⟨o, ho, heq⟩ := List.mem_map.mp hname
  exact ⟨o, ho, congrArg Toml.lowerCased heq⟩

theorem validator?_of_shows {o : ValidatorOptions} (h : Shows n o.toJson t) :
    ∃ options, Toml.layerRules.validator? t = some { o with engine := options }
      ∧ ∀ key ∈ options.names, ∃ m ∈ o.engine, Toml.lowerCased m.1 = key := by
  have hsmall : AreSmall ["draft", "validate_formats", "engine"] := areSmall_of_subset (by decide) (by decide)
  obtain ⟨fields, rfl, hfields⟩ := h.fields hsmall
  have hdraft := field_of_shows "draft" .draft7 hfields rfl fun _ => draft?_of_shows
  have hformats := field_of_shows "validate_formats" true hfields rfl fun _ => flag?_of_shows
  obtain ⟨w, hw, hshows⟩ := lookup_of_shows "engine" hfields rfl
  obtain ⟨options, hoptions, hnames⟩ := table?_of_shows hshows
  have hengine : field fields "engine" Toml.layerRules.table? [] = some options := by
    rw [field, hw]
    exact hoptions
  refine ⟨options, ?_, hnames⟩
  simp only [ScalarRules.validator?, record?_table, hdraft, hformats, hengine, Option.bind_eq_bind, Option.bind_some,
    Option.pure_def]

/-- A text that was written is read, and one that was left out stays absent. -/
theorem optional_of_shows (name : String) {js : Json.Members} {fields : Toml.Members} {s : Option String}
    (h : ∀ key, ShowsMember n (js.lookup key) (fields.lookup key)) (hj : js.lookup name = s.map Json.str) :
    field fields name (Toml.layerRules.optional Toml.layerRules.text?) none = some s := by
  cases s with
  | none => exact field_of_absent name none h hj
  | some s =>
    refine field_of_shows name none h hj fun t ht => ?_
    show (Toml.layerRules.text? t).map some = some (some s)
    rw [text?_of_shows ht]
    rfl

theorem paths?_of_shows {p : Paths} (h : Shows n p.toJson t) : Toml.layerRules.paths? t = some p := by
  obtain ⟨input, output⟩ := p
  -- either path may be left out, so the names of the record are some of these
  have hall : AreSmall ["input", "output"] := areSmall_of_subset (by decide) (by decide)
  have hsub := (names_optionalField "input" input).append (names_optionalField "output" output)
  rw [← Json.Members.names_append] at hsub
  obtain ⟨fields, rfl, hfields⟩ := h.fields (hall.sublist hsub)
  have hinput : field fields "input" (Toml.layerRules.optional Toml.layerRules.text?) none = some input :=
    optional_of_shows "input" hfields (by cases input <;> cases output <;> rfl)
  have houtput : field fields "output" (Toml.layerRules.optional Toml.layerRules.text?) none = some output :=
    optional_of_shows "output" hfields (by cases input <;> cases output <;> rfl)
  simp only [ScalarRules.paths?, record?_table, hinput, houtput, Option.bind_eq_bind, Option.bind_some,
    Option.pure_def]

/-- Options as the layers have them, with other options of the engine. -/
def shownOptions (o : GenerateOptions) (engine : Json.Members) : GenerateOptions :=
  { o with validator := { o.validator with engine }, naming := ⟨sortedTexts o.naming.acronyms⟩ }

theorem areSmall_fileFields (o : GenerateOptions) : AreSmall (Json.Members.names o.fileFields) := by
  have hall : AreSmall ["decoder_name", "pack", "collision", "style", "validator", "naming"] :=
    areSmall_of_subset (by decide) (by decide)
  unfold GenerateOptions.fileFields
  rw [Json.Members.names_append]
  exact hall.sublist ((names_optionalField "decoder_name" o.decoderName).append (.refl _))

/-- The name of the class stands in front of the other fields, if it is there. -/
theorem lookup_fileFields {o : GenerateOptions} (key : String) (hkey : key ≠ "decoder_name") :
    o.fileFields.lookup key = List.lookup key [("pack", .bool o.pack), ("collision", .str o.collision.word),
      ("style", o.style.toJson), ("validator", o.validator.toJson), ("naming", o.naming.toJson)] := by
  unfold GenerateOptions.fileFields
  cases o.decoderName with
  | none => rfl
  | some s =>
    show List.lookup key (("decoder_name", Json.str s) :: _) = _
    rw [Json.lookup_cons_eq_ite, if_neg hkey]
    rfl

theorem generate?_of_shows {o : GenerateOptions} (h : Shows n (.obj o.fileFields) t) :
    ∃ engine, Toml.layerRules.generate? t = some (shownOptions o engine)
      ∧ ∀ key ∈ engine.names, ∃ m ∈ o.validator.engine, Toml.lowerCased m.1 = key := by
  obtain ⟨fields, rfl, hfields⟩ := h.fields (areSmall_fileFields o)
  have hdecoder : o.fileFields.lookup "decoder_name" = o.decoderName.map Json.str := by
    unfold GenerateOptions.fileFields
    cases o.decoderName <;> rfl
  have hstyle := field_of_shows "style" {} hfields (lookup_fileFields "style" (by decide)) fun _ => style?_of_shows
  have hdecoder := optional_of_shows "decoder_name" hfields hdecoder
  have hpack := field_of_shows "pack" true hfields (lookup_fileFields "pack" (by decide)) fun _ => flag?_of_shows
  have hnaming := field_of_shows "naming" {} hfields (lookup_fileFields "naming" (by decide)) fun _ => naming?_of_shows
  have hcollision := field_of_shows "collision" .error hfields (lookup_fileFields "collision" (by decide))
    fun _ => collision?_of_shows
  obtain ⟨w, hw, hshows⟩ := lookup_of_shows "validator" hfields (lookup_fileFields "validator" (by decide))
  obtain ⟨engine, hengine, hnames⟩ := validator?_of_shows hshows
  have hvalidator : field fields "validator" Toml.layerRules.validator? {} = some { o.validator with engine } := by
    rw [field, hw]
    exact hengine
  refine ⟨engine, ?_, hnames⟩
  simp only [ScalarRules.generate?, record?_table, hstyle, hvalidator, hdecoder, hpack, hnaming, hcollision,
    Option.bind_eq_bind, Option.bind_some, Option.pure_def, shownOptions]

/-- The members of a configuration, in the order of its file. -/
def fileMembers (c : Config) : Json.Members := [("generate", .obj c.generate.fileFields), ("paths", c.paths.toJson)]

/-- **The configuration that the layers form** is the one that was written, but for the options of the engine. -/
theorem config?_of_shows {c : Config} (h : Shows n (.obj (fileMembers c)) t) :
    ∃ engine, Toml.layerRules.config? t = some { c with generate := shownOptions c.generate engine }
      ∧ ∀ key ∈ engine.names, ∃ m ∈ c.generate.validator.engine, Toml.lowerCased m.1 = key := by
  have hsmall : AreSmall ["generate", "paths"] := areSmall_of_subset (by decide) (by decide)
  obtain ⟨fields, rfl, hfields⟩ := h.fields hsmall
  obtain ⟨w, hw, hshows⟩ := lookup_of_shows "generate" hfields rfl
  obtain ⟨engine, hengine, hnames⟩ := generate?_of_shows hshows
  have hgenerate : field fields "generate" Toml.layerRules.generate? {} = some (shownOptions c.generate engine) := by
    rw [field, hw]
    exact hengine
  have hpaths := field_of_shows "paths" {} hfields rfl fun _ => paths?_of_shows
  refine ⟨engine, ?_, hnames⟩
  simp only [ScalarRules.config?, record?_table, hgenerate, hpaths, Option.bind_eq_bind, Option.bind_some,
    Option.pure_def]

end DecoderForge.Layers
