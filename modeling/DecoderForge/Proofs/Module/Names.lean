import DecoderForge.Proofs.Module.Acceptance

/-!
# DecoderForge — the names at the top of a module

What is introduced outside every block of a module shares one namespace: imports, types, the registry with
its error and its issues, and fixed names.  Fixed names hold a dollar sign, end unlike the others, or begin
with a small letter; so identifiers of definitions meet only the engine and the registry.

## The architecture

* **`Layout.outerLines`** — the lines of a module that stand outside every block.
* **`Module.introduces_outerLines`** — each of them introduces one name, in a known order.
* **`Module.nodup_topLevelNames_iff`** — when no two of the names, with those of the types, are the same.
-/

namespace DecoderForge

/-! ## Lines outside every block -/

namespace Layout

/-- The lines outside every block, where `depth` blocks are open already. -/
def outerLines : (depth : Nat) → List Call → List String
  | _, [] => []
  | 0, .line s :: rest => s :: outerLines 0 rest
  | 0, .opening s :: rest => s :: outerLines 1 rest
  | depth + 1, .opening _ :: rest => outerLines (depth + 2) rest
  | depth, .closing _ :: rest => outerLines (depth - 1) rest
  | depth, _ :: rest => outerLines depth rest

/-- How many blocks are open behind calls. -/
def depthBehind : (depth : Nat) → List Call → Nat
  | depth, [] => depth
  | depth, .opening _ :: rest => depthBehind (depth + 1) rest
  | depth, .closing _ :: rest => depthBehind (depth - 1) rest
  | depth, _ :: rest => depthBehind depth rest

theorem outerLines_append : ∀ (depth : Nat) (front back : List Call),
    outerLines depth (front ++ back) = outerLines depth front ++ outerLines (depthBehind depth front) back
  | _, [], _ => rfl
  | depth, call :: front, back => by
      have ih := fun depth => outerLines_append depth front back
      cases call <;> cases depth <;> simp [outerLines, depthBehind, ih]

theorem depthBehind_append : ∀ (depth : Nat) (front back : List Call),
    depthBehind depth (front ++ back) = depthBehind (depthBehind depth front) back
  | _, [], _ => rfl
  | depth, call :: front, back => by
      have ih := fun depth => depthBehind_append depth front back
      cases call <;> simp [depthBehind, ih]

/-- Calls that close what they open, with the lines of theirs outside every block. -/
def Shows (calls : List Call) (lines : List String) : Prop :=
  outerLines 0 calls = lines ∧ depthBehind 0 calls = 0

theorem Shows.append {front back : List Call} {lines more : List String} (hfront : Shows front lines)
    (hback : Shows back more) : Shows (front ++ back) (lines ++ more) := by
  refine ⟨?_, ?_⟩
  · rw [outerLines_append, hfront.1, hfront.2, hback.1]
  · rw [depthBehind_append, hfront.2, hback.2]

theorem Shows.ite {calls : List Call} {lines : List String} (h : Shows calls lines) (b : Bool) :
    Shows (if b then calls else []) (if b then lines else []) := by
  cases b
  · exact ⟨rfl, rfl⟩
  · exact h

theorem shows_lines : ∀ lines : List String, Shows (lines.map Call.line) lines
  | [] => ⟨rfl, rfl⟩
  | s :: rest => by
      obtain ⟨houter, hdepth⟩ := shows_lines rest
      exact ⟨congrArg (s :: ·) houter, hdepth⟩

/-- Lines inside a block do not stand outside. -/
theorem outerLines_inside {calls : List Call} (h : ∀ c ∈ calls, ∃ s, c = .line s) :
    outerLines 1 calls = [] ∧ depthBehind 1 calls = 1 := by
  induction calls with
  | nil => exact ⟨rfl, rfl⟩
  | cons c rest ih =>
      obtain ⟨⟨s, rfl⟩, hrest⟩ := List.forall_mem_cons.mp h
      exact ih hrest

end Layout

open Layout (outerLines Shows)

/-! ## Statements that introduce a name -/

/-- The words that a statement begins with, in front of the name that it introduces. -/
def introducers : List String :=
  ["import ", "export interface ", "export const enum ", "export type ", "export class ", "type ",
    "function ", "const ", "let "]

/-- A text that begins with a statement which introduces a name. -/
def Introduces (text name : String) : Prop :=
  ∃ first ∈ introducers, ∃ next ∈ [" ", "(", "<", ":"], ∃ rest, text = first ++ name ++ next ++ rest

theorem Introduces.append {text name : String} (h : Introduces text name) (more : String) :
    Introduces (text ++ more) name := by
  obtain ⟨first, hfirst, next, hnext, rest, rfl⟩ := h
  exact ⟨first, hfirst, next, hnext, rest ++ more, String.append_assoc ..⟩

/-- A declaration introduces its name, behind its comment. -/
theorem Types.introduces_body (style : Style) (name : String) :
    ∀ body : Types.Body, Introduces (String.ofList (body.text style name.toList)) name
  | .constEnum members => by
      refine ⟨"export const enum ", by decide, " ", by decide,
        "\x7b\n" ++ String.ofList (members.flatMap fun m => Types.enumLine style m.1 m.2) ++ "\x7d", ?_⟩
      have hopens : " \x7b\n".toList = " ".toList ++ "\x7b\n".toList := by decide
      have hcloses : ['}'] = "\x7d".toList := by decide
      show String.ofList ("export const enum ".toList ++ name.toList ++ " \x7b\n".toList
        ++ (members.flatMap fun m => Types.enumLine style m.1 m.2) ++ ['}']) = _
      rw [hopens, hcloses]
      simp only [String.ofList_append, String.ofList_toList, String.append_assoc]
  | .interface type => by
      refine ⟨"export interface ", by decide, " ", by decide, String.ofList (type.render style), ?_⟩
      have hblank : [' '] = " ".toList := by decide
      show String.ofList ("export interface ".toList ++ name.toList ++ [' '] ++ type.render style) = _
      rw [hblank]
      simp only [String.ofList_append, String.ofList_toList]
  | .alias type => by
      refine ⟨"export type ", by decide, " ", by decide,
        "= " ++ String.ofList (type.render style) ++ ";", ?_⟩
      have hequals : " = ".toList = " ".toList ++ "= ".toList := by decide
      have hends : [';'] = ";".toList := by decide
      show String.ofList ("export type ".toList ++ name.toList ++ " = ".toList ++ type.render style ++ [';']) = _
      rw [hequals, hends]
      simp only [String.ofList_append, String.ofList_toList, String.append_assoc]

namespace Module

/-! ## The names of a module -/

/-- The names that are the same in every module that has them. -/
def fixedNames (m : Module) : List String :=
  (if m.usesLookup then ["Ajv"] else []) ++ ["Validator$", "describe$"]
    ++ (if m.usesLookup then ["schema$", "engineOptions$", "engine$", "getEngine$"] else [])
    ++ (if m.usesPrecompiled then ["decodeWith"] else []) ++ (if m.usesLookup then ["decodeAt"] else [])

/-- The names of the registry and of what belongs to it. -/
def registryNames (m : Module) : List String := [m.decoderName, m.errorClass, m.issueType]

/-- The names that imports introduce, those of validators given. -/
def importedNames (m : Module) (validators : List String) : List String :=
  (if m.usesLookup then ["Ajv"] else []) ++ validators

/-- The names that are introduced behind the types. -/
def ownNames (m : Module) : List String :=
  [m.issueType, "Validator$", "describe$"]
    ++ (if m.usesLookup then ["schema$", "engineOptions$", "engine$", "getEngine$"] else [])
    ++ (if m.usesPrecompiled then ["decodeWith"] else []) ++ (if m.usesLookup then ["decodeAt"] else [])
    ++ [m.errorClass, m.decoderName]

/-- Every name at the top of a module, in order, those of validators and types given. -/
def topLevelNames (m : Module) (validators types : List String) : List String :=
  m.importedNames validators ++ types ++ m.ownNames

/-! ## Sections -/

variable {m : Module}

theorem introduces_ite {lines names : List String} (h : List.Forall₂ Introduces lines names) (b : Bool) :
    List.Forall₂ Introduces (if b then lines else []) (if b then names else []) := by
  cases b
  · exact .nil
  · exact h

theorem shows_importSection : Shows m.importSection
    ("/* eslint-disable */" ::
      (if m.usesLookup then ["import Ajv from " ++ m.style.quote "ajv" ++ ";"] else []) ++ m.imports) := by
  have hbanner : Shows [.line "/* eslint-disable */"] ["/* eslint-disable */"] := ⟨rfl, rfl⟩
  have hengine : Shows [.line ("import Ajv from " ++ m.style.quote "ajv" ++ ";")]
      ["import Ajv from " ++ m.style.quote "ajv" ++ ";"] := ⟨rfl, rfl⟩
  have hblank : Shows [.blank] [] := ⟨rfl, rfl⟩
  have hall := ((hbanner.append (hengine.ite m.usesLookup)).append (Layout.shows_lines m.imports)).append hblank
  rwa [List.append_nil] at hall

theorem introduces_engineImport (style : Style) :
    Introduces ("import Ajv from " ++ style.quote "ajv" ++ ";") "Ajv" := by
  have hfront : Introduces "import Ajv from " "Ajv" := ⟨"import ", by decide, " ", by decide, "from ", rfl⟩
  exact (hfront.append _).append _

theorem shows_declarationSection : Shows m.declarationSection [] := by
  unfold declarationSection
  split
  · exact ⟨rfl, rfl⟩
  · exact ⟨rfl, rfl⟩

/-- The types and the function that every module has. -/
theorem supportSection_introduces : ∃ lines, Shows m.supportSection lines
    ∧ List.Forall₂ Introduces lines [m.issueType, "Validator$", "describe$"] := by
  have hissue : Introduces ("export interface " ++ m.issueType ++ " \x7b") m.issueType :=
    ⟨"export interface ", by decide, " ", by decide, "\x7b", by
      apply String.toList_injective
      simp⟩
  have htype : Introduces "type Validator$ = ((json: unknown) => boolean) & \x7b errors?: " "Validator$" :=
    ⟨"type ", by decide, " ", by decide, "= ((json: unknown) => boolean) & \x7b errors?: ", rfl⟩
  have hfunction : Introduces "function describe$(errors: " "describe$" :=
    ⟨"function ", by decide, "(", by decide, "errors: ", rfl⟩
  exact ⟨_, ⟨rfl, rfl⟩, .cons hissue (.cons ((htype.append _).append _)
    (.cons (((hfunction.append _).append _).append _) .nil))⟩

/-- The engine and what it is made from. -/
theorem engineSection_introduces : ∃ lines, Shows m.engineSection lines
    ∧ List.Forall₂ Introduces lines ["schema$", "engineOptions$", "engine$", "getEngine$"] := by
  have hschema : Introduces "const schema$ = " "schema$" := ⟨"const ", by decide, " ", by decide, "= ", rfl⟩
  have hoptions : Introduces "const engineOptions$ = " "engineOptions$" :=
    ⟨"const ", by decide, " ", by decide, "= ", rfl⟩
  have hengine : Introduces "let engine$: InstanceType<typeof Ajv> | undefined;" "engine$" :=
    ⟨"let ", by decide, ":", by decide, " InstanceType<typeof Ajv> | undefined;", rfl⟩
  have hget : Introduces ("function getEngine$(): InstanceType<typeof Ajv>" ++ " \x7b") "getEngine$" :=
    ⟨"function ", by decide, "(", by decide, "): InstanceType<typeof Ajv> \x7b", rfl⟩
  exact ⟨_, ⟨rfl, rfl⟩, .cons ((hschema.append _).append _) (.cons ((hoptions.append _).append _)
    (.cons hengine (.cons hget .nil)))⟩

theorem decodeWithSection_introduces : ∃ lines, Shows m.decodeWithSection lines
    ∧ List.Forall₂ Introduces lines ["decodeWith"] := by
  have hfunction : Introduces
      ("function decodeWith<T>(validator: Validator$, label: string): (json: unknown) => T" ++ " \x7b")
      "decodeWith" :=
    ⟨"function ", by decide, "<", by decide,
      "T>(validator: Validator$, label: string): (json: unknown) => T \x7b", rfl⟩
  exact ⟨_, ⟨rfl, rfl⟩, .cons hfunction .nil⟩

theorem decodeAtSection_introduces : ∃ lines, Shows m.decodeAtSection lines
    ∧ List.Forall₂ Introduces lines ["decodeAt"] := by
  have hfunction : Introduces
      ("function decodeAt<T>(pointer: string, label: string): (json: unknown) => T" ++ " \x7b") "decodeAt" :=
    ⟨"function ", by decide, "<", by decide, "T>(pointer: string, label: string): (json: unknown) => T \x7b",
      rfl⟩
  exact ⟨_, ⟨rfl, rfl⟩, .cons hfunction .nil⟩

theorem errorSection_introduces : ∃ lines, Shows m.errorSection lines
    ∧ List.Forall₂ Introduces lines [m.errorClass] := by
  have hclass : Introduces ("export class " ++ m.errorClass ++ " extends Error" ++ " \x7b") m.errorClass :=
    ⟨"export class ", by decide, " ", by decide, "extends Error \x7b", by
      apply String.toList_injective
      simp⟩
  exact ⟨_, ⟨rfl, rfl⟩, .cons hclass .nil⟩

theorem registrySection_introduces : ∃ lines, Shows m.registrySection lines
    ∧ List.Forall₂ Introduces lines [m.decoderName] := by
  have hclass : Introduces ("export class " ++ m.decoderName ++ " \x7b") m.decoderName :=
    ⟨"export class ", by decide, " ", by decide, "\x7b", by
      apply String.toList_injective
      simp⟩
  -- the members are lines inside the block of the class
  have hmembers : ∀ c ∈ m.entries.map (memberLine m.style), ∃ s, c = .line s := by
    intro c hc
    obtain ⟨e, -, rfl⟩ := List.mem_map.mp hc
    exact ⟨_, rfl⟩
  obtain ⟨houter, hdepth⟩ := Layout.outerLines_inside hmembers
  refine ⟨["export class " ++ m.decoderName ++ " \x7b"], ⟨?_, ?_⟩, .cons hclass .nil⟩
  · show _ :: outerLines 1 (m.entries.map (memberLine m.style) ++ [closes]) = _
    rw [Layout.outerLines_append, houter, hdepth]
    rfl
  · show Layout.depthBehind 1 (m.entries.map (memberLine m.style) ++ [closes]) = 0
    rw [Layout.depthBehind_append, hdepth]
    rfl

/-- **Each line outside every block introduces one name**, but for the comment in front. -/
theorem introduces_outerLines {validators : List String} (h : List.Forall₂ Introduces m.imports validators) :
    ∃ lines, outerLines 0 m.calls = "/* eslint-disable */" :: lines
      ∧ List.Forall₂ Introduces lines (m.importedNames validators ++ m.ownNames) := by
  obtain ⟨support, hsupport, hsupport'⟩ := supportSection_introduces (m := m)
  obtain ⟨engine, hengine, hengine'⟩ := engineSection_introduces (m := m)
  obtain ⟨decodeWith, hdecodeWith, hdecodeWith'⟩ := decodeWithSection_introduces (m := m)
  obtain ⟨decodeAt, hdecodeAt, hdecodeAt'⟩ := decodeAtSection_introduces (m := m)
  obtain ⟨error, herror, herror'⟩ := errorSection_introduces (m := m)
  obtain ⟨registry, hregistry, hregistry'⟩ := registrySection_introduces (m := m)
  -- the sections one behind another, those left out that the module does not need
  have hshows := (((((((shows_importSection (m := m)).append (shows_declarationSection (m := m))).append hsupport).append
    (hengine.ite m.usesLookup)).append (hdecodeWith.ite m.usesPrecompiled)).append
    (hdecodeAt.ite m.usesLookup)).append herror).append hregistry
  refine ⟨_, hshows.1, ?_⟩
  have himports : List.Forall₂ Introduces
      ((if m.usesLookup then ["import Ajv from " ++ m.style.quote "ajv" ++ ";"] else []) ++ m.imports)
      (m.importedNames validators) :=
    List.rel_append (introduces_ite (.cons (introduces_engineImport m.style) .nil) _) h
  have hown := List.rel_append (List.rel_append (List.rel_append (List.rel_append (List.rel_append hsupport'
    (introduces_ite hengine' m.usesLookup)) (introduces_ite hdecodeWith' m.usesPrecompiled))
    (introduces_ite hdecodeAt' m.usesLookup)) herror') hregistry'
  have hall := List.rel_append himports hown
  simpa [ownNames, List.append_assoc] using hall

/-! ## Which names can meet -/

/-- The last two characters of a text, in reverse. -/
def ending (s : String) : List Char := s.toList.reverse.take 2

theorem ending_append (s : String) {suffix : String} (h : 2 ≤ suffix.toList.length) :
    ending (s ++ suffix) = ending suffix := by
  have hlength : 2 ≤ suffix.toList.reverse.length := by simpa using h
  unfold ending
  rw [String.toList_append, List.reverse_append, List.take_append_of_le_length hlength]

/-- Every name that is fixed in some module. -/
def allFixedNames : List String :=
  ["Ajv", "Validator$", "describe$", "schema$", "engineOptions$", "engine$", "getEngine$", "decodeWith", "decodeAt"]

theorem fixedNames_sublist : m.fixedNames.Sublist allFixedNames := by
  unfold fixedNames
  cases m.usesLookup <;> cases m.usesPrecompiled <;> decide

theorem mem_fixedNames_iff_of_ajv : "Ajv" ∈ m.fixedNames ↔ m.usesLookup = true := by
  unfold fixedNames
  cases m.usesLookup <;> cases m.usesPrecompiled <;> decide

/-- The names that the identifiers of definitions can have in common with the fixed ones. -/
theorem eq_ajv_of_mem_fixedNames {name : String} (h : name ∈ m.fixedNames) (hdollar : '$' ∉ name.toList)
    (hsmall : ∃ c rest, name.toList = c :: rest ∧ Text.isNoSmallLetter c = true) : name = "Ajv" := by
  have hall : ∀ f ∈ allFixedNames, f = "Ajv" ∨ '$' ∈ f.toList ∨ f.toList.head?.all Char.isLower = true := by decide
  obtain ⟨c, rest, hchars, hc⟩ := hsmall
  rcases hall name (fixedNames_sublist.subset h) with hajv | hfixed | hhead
  · exact hajv
  · exact absurd hfixed hdollar
  · rw [hchars] at hhead
    simp_all [Text.isNoSmallLetter]

/-- The fixed names end unlike validators, errors and issues. -/
theorem ending_of_mem_fixedNames {name : String} (h : name ∈ m.fixedNames) :
    ending name ≠ ending "$validate" ∧ ending name ≠ ending "Error" ∧ ending name ≠ ending "Issue" := by
  have hall : ∀ f ∈ allFixedNames,
      ending f ≠ ending "$validate" ∧ ending f ≠ ending "Error" ∧ ending f ≠ ending "Issue" := by decide
  exact hall name (fixedNames_sublist.subset h)

theorem ending_errorClass : ending m.errorClass = ending "Error" := ending_append _ (by decide)

theorem ending_issueType : ending m.issueType = ending "Issue" := ending_append _ (by decide)

theorem nodup_registryNames : m.registryNames.Nodup := by
  have herror : m.errorClass.toList.length = m.decoderName.toList.length + 5 := by
    simp [errorClass]
  have hissue : m.issueType.toList.length = m.decoderName.toList.length + 5 := by
    simp [issueType]
  have hends : ending "Error" ≠ ending "Issue" := by decide
  have hne : m.decoderName ≠ m.errorClass := fun h => by
    rw [← h] at herror
    omega
  have hne' : m.decoderName ≠ m.issueType := fun h => by
    rw [← h] at hissue
    omega
  have hne'' : m.errorClass ≠ m.issueType := fun h => hends (by rw [← ending_errorClass (m := m), h, ending_issueType])
  simp [registryNames, hne, hne', hne'']

theorem topLevelNames_perm (validators types : List String) :
    (m.topLevelNames validators types).Perm (m.fixedNames ++ validators ++ (types ++ m.registryNames)) := by
  rw [List.perm_iff_count]
  intro name
  simp only [topLevelNames, importedNames, ownNames, fixedNames, registryNames, List.count_append,
    List.count_cons, List.count_nil]
  omega

/-- Validators share no name with what is fixed, and neither do errors and issues. -/
theorem nodup_fixedNames_append {validators : List String} (hvalidators : validators.Nodup)
    (hsuffix : ∀ v ∈ validators, ending v = ending "$validate") : (m.fixedNames ++ validators).Nodup := by
  refine List.nodup_append.mpr ⟨fixedNames_sublist.nodup (by decide), hvalidators, ?_⟩
  rintro name hname v hv rfl
  exact (ending_of_mem_fixedNames hname).1 (hsuffix name hv)

/-- **When the names at the top of a module differ.**  Let the types have different names, none with a dollar
sign and none that begins with a small letter, and let the validators have different names that end as
theirs do.  Then no two names at the top are the same exactly when no type is named like the registry, its
error, its issues or the imported engine, and the registry is not named like a validator or a fixed name. -/
theorem nodup_topLevelNames_iff {validators types : List String} (hvalidators : validators.Nodup)
    (hsuffix : ∀ v ∈ validators, '$' ∈ v.toList ∧ ending v = ending "$validate") (htypes : types.Nodup)
    (hdollar : ∀ t ∈ types, '$' ∉ t.toList)
    (hsmall : ∀ t ∈ types, ∃ c rest, t.toList = c :: rest ∧ Text.isNoSmallLetter c = true) :
    (m.topLevelNames validators types).Nodup
      ↔ (∀ t ∈ types, t ∉ m.registryNames ∧ (m.usesLookup = true → t ≠ "Ajv"))
        ∧ m.decoderName ∉ m.fixedNames ++ validators := by
  have hfixed : (m.fixedNames ++ validators).Nodup :=
    nodup_fixedNames_append hvalidators fun v hv => (hsuffix v hv).2
  -- a type can only be the engine, as the others have a dollar sign or a small letter in front
  have htype : ∀ t ∈ types, t ∈ m.fixedNames ++ validators ↔ m.usesLookup = true ∧ t = "Ajv" := by
    intro t ht
    constructor
    · intro hmem
      rcases List.mem_append.mp hmem with hmem | hmem
      · obtain rfl := eq_ajv_of_mem_fixedNames hmem (hdollar t ht) (hsmall t ht)
        exact ⟨mem_fixedNames_iff_of_ajv.mp hmem, rfl⟩
      · exact absurd (hsuffix t hmem).1 (hdollar t ht)
    · rintro ⟨hlookup, rfl⟩
      exact List.mem_append_left _ (mem_fixedNames_iff_of_ajv.mpr hlookup)
  -- errors and issues end like no other name
  have hregistry : ∀ name ∈ m.registryNames, name ∈ m.fixedNames ++ validators → name = m.decoderName := by
    have hends : ending "$validate" ≠ ending "Error" ∧ ending "$validate" ≠ ending "Issue" := by decide
    intro name hname hmem
    have hapart : ending name ≠ ending "Error" ∧ ending name ≠ ending "Issue" := by
      rcases List.mem_append.mp hmem with hmem | hmem
      · exact (ending_of_mem_fixedNames hmem).2
      · rw [(hsuffix name hmem).2]
        exact hends
    simp only [registryNames, List.mem_cons, List.not_mem_nil, or_false] at hname
    rcases hname with rfl | rfl | rfl
    · rfl
    · exact absurd ending_errorClass hapart.1
    · exact absurd ending_issueType hapart.2
  have hrest : (types ++ m.registryNames).Nodup ↔ types.Disjoint m.registryNames := by
    rw [List.nodup_append']
    exact ⟨fun h => h.2.2, fun h => ⟨htypes, nodup_registryNames, h⟩⟩
  rw [(topLevelNames_perm validators types).nodup_iff, List.nodup_append', hrest]
  constructor
  · rintro ⟨-, htypes', hall⟩
    refine ⟨fun t ht => ⟨htypes' ht, fun hlookup hajv => ?_⟩, fun hmem => ?_⟩
    · exact hall ((htype t ht).mpr ⟨hlookup, hajv⟩) (List.mem_append_left _ ht)
    · exact hall hmem (List.mem_append_right _ (by simp [registryNames]))
  · rintro ⟨htypes', hdecoder⟩
    refine ⟨hfixed, fun t ht => (htypes' t ht).1, fun name hmem hname => ?_⟩
    rcases List.mem_append.mp hname with hname | hname
    · obtain ⟨hlookup, hajv⟩ := (htype name hname).mp hmem
      exact (htypes' name hname).2 hlookup hajv
    · rw [hregistry name hname hmem] at hmem
      exact hdecoder hmem

end Module

end DecoderForge
