import DecoderForge.Proofs.Json.Members
import DecoderForge.Proofs.Standalone.Lockstep
import DecoderForge.Proofs.Validation.Bound
import DecoderForge.Proofs.Validation.Identified
import DecoderForge.Proofs.Validation.Lone

/-!
# DecoderForge — the text of a validator and its verdicts

Two definitions whose validators have the same text accept the same values, if the engine reads each of them as its
code does.  Where it does not, the text leaves something out: there is no code for the keywords that speak of encoded
content, to which the engine holds a value.

## The architecture

* **`Document.readsAs_of_isPlain`** — where the references of a definition lead.
* **`ValidatorCompiler.ReadsAsEmitted`** — a definition that the engine reads as its code does, and
  **`ReadsAsEmitted.accepts_iff`**, what its validator accepts.
* **`ValidatorCompiler.accepts_eq_of_source_eq`** — the same text, the same verdicts.
* **`same_source_other_verdict`** — two definitions that differ in a demand and not in their text.
-/

namespace DecoderForge

open SchemaReading

/-! ## References -/

namespace Document

variable {d : Document} {dialect : Dialect} {r : String}

theorem readsAs_of_plain (hplain : isPlainReference r = true) (hoverlooked : d.Overlooks r)
    (hunmoved : ∀ t, resolveLocal? d.root r = some t → Constraint.Unmoved dialect.draft defaultScope t) :
    d.ReadsAs dialect (resolveLocal? d.root) r := by
  obtain ⟨fragment, hchars, hclean, hescaped⟩ := isPlainReference_iff.mp hplain
  have hurl := join_plain hchars hclean
  refine ⟨_, hurl, ?_⟩
  rcases resolve_plain hchars hescaped rfl (hoverlooked.unspelled _ hurl)
    (fun pointer hpointer ids t => hoverlooked.passed fragment pointer ids t hchars hpointer) with
    ⟨t, hlocal, hresolve⟩ | ⟨hlocal, hfault⟩
  · exact Or.inl ⟨t, hlocal, hresolve, hunmoved t hlocal⟩
  · exact Or.inr ⟨hlocal, issuesAt_ne_nil (Or.inl hfault)⟩

/-- References of a definition are looked up as they lead in the document. -/
theorem readsAs_of_isPlain {formats : Bool} {pointer : String} {t : Json} (hpointer : isPlainReference pointer = true)
    (hplain : Meaning.IsPlain (resolveLocal? d.root) d pointer t)
    (hr : r = pointer ∨ Meaning.Reaches (resolveLocal? d.root) t r) :
    d.ReadsAs ⟨d.draft, formats⟩ (resolveLocal? d.root) r := by
  have hreference : isPlainReference r = true ∨ d.LeadsOutside r := by
    rcases hr with rfl | hreach
    · exact Or.inl hpointer
    · exact hplain.references r hreach
  rcases hreference with hreference | houtside
  · exact readsAs_of_plain hreference (hplain.overlooked r hr) (hplain.unmoved r hr)
  · exact houtside.readsAs (hplain.overlooked r hr).unspelled (houtside.resolveLocal?_eq_none d.root)

/-- A document without an identifier of its own. -/
theorem scope_of_ofSchema {draft : Draft} {root : Json} (h : ofSchema draft root = .ok d)
    (hid : schemaId? draft root = none) : d.scope = defaultScope := by
  rw [ofSchema_eq, hid] at h
  obtain ⟨named, -, rfl⟩ := map_eq_ok h
  rfl

end Document

namespace ValidatorCompiler

/-! ## What a bound validator accepts -/

/-- A definition that the engine reads as its code does: wherever references lead, nothing is read in another way and
nothing is enforced that has no code. -/
structure ReadsAsEmitted (o : ValidatorOptions) (schema : Json) (pointer : String) (d : Document) (t : Json) :
    Prop where
  document : Document.ofSchema o.draft (referring schema pointer) = .ok d
  target : resolveLocal? schema pointer = some t
  /-- The schema has no identifier of its own, and others do not get in the way of references, none of which is
  endless. -/
  unnamed : schemaId? o.draft (referring schema pointer) = none
  address : isPlainReference pointer = true
  plain : Meaning.IsPlain (resolveLocal? d.root) d pointer t
  /-- The engine, which is given the schema with the pointer as its reference, finds what the schema has. -/
  same : ∀ r, r = pointer ∨ Meaning.Reaches (resolveLocal? d.root) t r → resolveLocal? d.root r = resolveLocal? schema r
  legible : ∀ members : Json.Members, Standalone.Visited schema t (.obj members) → members.get? "$ref" = none →
    Standalone.Legible ⟨o.draft, o.validateFormats⟩ members

/-- Where there are no identifiers it is enough that every reference is plain, leads somewhere else than to the whole
schema and comes to an end. -/
theorem ReadsAsEmitted.of_notMem {o : ValidatorOptions} {entries : Json.Members} {pointer : String} {t : Json}
    (htarget : resolveLocal? (definitionsSchema entries) pointer = some t) (hpointer : pointer ≠ "#")
    (haddress : isPlainReference pointer = true)
    (hnone : o.draft.idKey ∉ (referring (definitionsSchema entries) pointer).texts)
    (hplain : ∀ r, Meaning.Reaches (resolveLocal? (definitionsSchema entries)) t r → isPlainReference r = true)
    (hleads : ∀ r, Meaning.Reaches (resolveLocal? (definitionsSchema entries)) t r →
      r ≠ "#" ∧ (resolveLocal? (definitionsSchema entries) r).isSome = true)
    (hends : ¬ Meaning.Endless (resolveLocal? (definitionsSchema entries)) t)
    (hlegible : ∀ members : Json.Members, Standalone.Visited (definitionsSchema entries) t (.obj members) →
      members.get? "$ref" = none → Standalone.Legible ⟨o.draft, o.validateFormats⟩ members) :
    ReadsAsEmitted o (definitionsSchema entries) pointer
      ⟨o.draft, referring (definitionsSchema entries) pointer, Document.defaultScope, []⟩ t := by
  set root := referring (definitionsSchema entries) pointer
  have hfound {r : String} (hr : r ≠ "#") (hsome : (resolveLocal? (definitionsSchema entries) r).isSome = true) :
      resolveLocal? root r = resolveLocal? (definitionsSchema entries) r := by
    rcases resolveLocal?_wrapper entries pointer hr with heq | ⟨hnone, -⟩
    · exact heq
    · simp [hnone] at hsome
  have hsame : ∀ r, Meaning.Reaches (resolveLocal? (definitionsSchema entries)) t r →
      resolveLocal? root r = resolveLocal? (definitionsSchema entries) r := fun r hr =>
    hfound (hleads r hr).1 (hleads r hr).2
  have hreaches {r : String} (hr : Meaning.Reaches (resolveLocal? root) t r) := hr.of_eq hsame
  have hid {u : Json} {r : String} (hu : resolveLocal? root r = some u) : o.draft.idKey ∉ u.texts := by
    rcases Json.inside_of_resolveLocal? hu with rfl | hinside
    · exact hnone
    · exact fun hmem => hnone (hinside.texts_subset hmem)
  exact
    { document := Document.ofSchema_of_notMem hnone
      target := htarget
      unnamed := Document.schemaId?_of_notMem hnone
      address := haddress
      plain := Meaning.isPlain_of_notMem rfl hnone (fun _ _ hu => hid hu) (fun r hr => hplain r (hreaches hr))
        fun h => hends (h.of_eq hsame)
      same := by
        rintro r (rfl | hr)
        · exact hfound hpointer (by rw [htarget]; rfl)
        · exact hsame r (hreaches hr)
      legible := hlegible }

/-- The wrapper is a reference. -/
theorem ofSchema_referring_eq {o : ValidatorOptions} {schema : Json} {pointer : String} {c : Constraint}
    (hid : schemaId? o.draft (referring schema pointer) = none)
    (hc : Constraint.ofSchema ⟨o.draft, o.validateFormats⟩ Document.defaultScope (referring schema pointer) = .ok c) :
    ∃ url, Document.defaultScope.join pointer = .ok url ∧ c = .reference url := by
  have hget : Json.Members.get? (Json.Members.insert (schema.asMembers?.getD []) "$ref" (.str pointer)) "$ref"
      = some (.str pointer) := by
    rw [Json.Members.get?_insert, if_pos rfl]
  have henter : Document.enter o.draft Document.defaultScope (referring schema pointer)
      = .ok Document.defaultScope := by
    unfold Document.enter
    rw [hid]
  unfold referring at hc henter
  rw [Constraint.ofSchema_obj, henter] at hc
  simp only [hget] at hc
  cases hurl : Document.defaultScope.join pointer with
  | error f => simp [hurl] at hc
  | ok url =>
      simp only [hurl] at hc
      exact ⟨url, rfl, (Except.ok.inj hc).symm⟩

section Accepts

variable {o : ValidatorOptions} {schema : Json} {pointer : String} {d : Document} {t : Json} {b : BoundValidator}

/-- **What a bound validator accepts**: what its definition accepts, with references to the schema as it stands. -/
theorem ReadsAsEmitted.accepts_iff (h : ReadsAsEmitted o schema pointer d t)
    (hbound : bindPointer? o schema pointer = some b) (v : Json) :
    b.accepts v = true ↔ Meaning.Accepts (resolveLocal? schema) ⟨o.draft, o.validateFormats⟩ t v := by
  obtain ⟨-, -, d', c, hd', hc, rfl⟩ := bindPointer?_eq_some_iff.mp hbound
  obtain rfl : d = d' := Except.ok.inj (h.document.symm.trans hd')
  obtain ⟨hdraft, hroot, -⟩ := Document.eq_of_ofSchema h.document
  rw [Document.scope_of_ofSchema h.document h.unnamed] at hc
  obtain ⟨url, hurl, rfl⟩ := ofSchema_referring_eq h.unnamed hc
  have hmeans : resolveLocal? d.root pointer = some t := (h.same pointer (Or.inl rfl)).trans h.target
  rw [← hdraft]
  have hinside : ∀ r u, resolveLocal? d.root r = some u → u.references ⊆ d.root.references := fun r u hu => by
    rcases Json.inside_of_resolveLocal? hu with rfl | hinside
    · exact List.Subset.refl _
    · exact hinside.references_subset
  show (d.issues ⟨d.draft, o.validateFormats⟩ (.reference url) v).isEmpty = true ↔ _
  rw [List.isEmpty_iff, Document.issues_reference_eq_nil_iff hurl hmeans
    (fun r hr => Document.readsAs_of_isPlain h.address h.plain hr) (fun r hr => hr.mem (hinside pointer t hmeans) hinside)
    h.plain.ends]
  exact Meaning.accepts_congr (fun r hr => h.same r (Or.inr hr)) v

end Accepts

/-! ## The same text -/

/-- **The same text, the same verdicts**: two definitions whose validators have the same text accept the same values, if
the engine reads each of them as its code does. -/
theorem accepts_eq_of_source_eq {o : ValidatorOptions} {schema schema' : Json} {pointer pointer' : String}
    {d d' : Document} {t t' : Json} {b b' : BoundValidator} {text : String}
    (h : ReadsAsEmitted o schema pointer d t) (h' : ReadsAsEmitted o schema' pointer' d' t')
    (hbound : bindPointer? o schema pointer = some b) (hbound' : bindPointer? o schema' pointer' = some b')
    (hsource : (builtIn o).standaloneSource schema b = .ok text)
    (hsource' : (builtIn o).standaloneSource schema' b' = .ok text) (v : Json) : b.accepts v = b'.accepts v := by
  have hlink {schema : Json} {pointer : String} {b : BoundValidator} (hbound : bindPointer? o schema pointer = some b)
      (hsource : (builtIn o).standaloneSource schema b = .ok text) :
      ∃ entry l, Standalone.link schema o.validateFormats pointer = .ok (entry, l)
        ∧ Layout.render "  " (Standalone.moduleCalls entry l) = text := by
    simp only [builtIn, pointer_of_bindPointer? hbound] at hsource
    cases hmodule : Standalone.source schema o.validateFormats pointer with
    | error f => simp [hmodule, Except.mapError] at hsource
    | ok written =>
        obtain rfl : written = text := by simpa [hmodule, Except.mapError] using hsource
        obtain ⟨⟨entry, l⟩, hl, htext⟩ := bind_eq_ok hmodule
        exact ⟨entry, l, hl, Except.ok.inj htext⟩
  obtain ⟨entry, l, hl, htext⟩ := hlink hbound hsource
  obtain ⟨entry', l', hl', htext'⟩ := hlink hbound' hsource'
  obtain ⟨M, rfl, rfl, hentry⟩ := Standalone.Assembly.exists_of_link ⟨o.draft, o.validateFormats⟩ hl
    h.target h.legible
  obtain ⟨N, rfl, rfl, hentry'⟩ := Standalone.Assembly.exists_of_link ⟨o.draft, o.validateFormats⟩ hl'
    h'.target h'.legible
  rw [Bool.eq_iff_iff, h.accepts_iff hbound, h'.accepts_iff hbound']
  refine exists_congr fun enough => forall_congr' fun n => imp_congr_right fun _ => ?_
  exact Standalone.Assembly.verdict_iff_of_text (htext.trans htext'.symm) hentry hentry' n v ""

/-- Objects with a title, in each of which another may stand. -/
def titled (title : String) : Json :=
  .obj [("title", .str title), ("type", .str "object"),
    ("properties", .obj [("next", .obj [("$ref", .str "#/definitions/A")])])]

/-- The only reference in such a definition is about the member. -/
theorem of_asks_titled {title r : String} {same : Bool} (h : (titled title).Asks same r) :
    same = false ∧ r = "#/definitions/A" := by
  rcases h.of_obj with ⟨href, -⟩ | ⟨-, keyword, v, part, same', hmem, ⟨-, hpart⟩, hasks, hsame⟩
  · exact absurd href (by simp [Json.Members.get?, List.lookup_cons])
  · simp only [List.mem_cons, Prod.mk.injEq, List.not_mem_nil, or_false] at hmem
    rcases hmem with ⟨rfl, rfl⟩ | ⟨rfl, rfl⟩ | ⟨rfl, rfl⟩
    · exact hpart.elim
    · exact hpart.elim
    · obtain ⟨ms, name, hms, hmem⟩ := hpart
      obtain rfl := Json.obj.inj hms
      obtain ⟨-, rfl⟩ := Prod.mk.inj (List.mem_singleton.mp hmem)
      exact ⟨by simp [hsame, isAboutWhole], hasks.of_reference rfl⟩

/-- What is visited is the object, or the reference to it. -/
theorem eq_or_eq_of_visited_titled {title : String} {u : Json}
    (h : Standalone.Visited (lone (titled title)) (titled title) u) :
    u = titled title ∨ u = .obj [("$ref", .str "#/definitions/A")] := by
  induction h with
  | start => exact Or.inl rfl
  | target _ hr htarget ih =>
      rcases ih with rfl | rfl
      · simp [Standalone.RefersTo, titled, Json.get?, Json.Members.get?, List.lookup_cons] at hr
      · obtain rfl := Json.str.inj (Option.some.inj hr)
        rw [← definitionPointer_lone, resolveLocal?_lone] at htarget
        exact Or.inl (Option.some.inj htarget).symm
  | part _ hpart ih =>
      obtain ⟨members, hmembers, hnoref, happlies⟩ := hpart
      rcases ih with rfl | rfl
      · obtain rfl := Json.obj.inj hmembers
        cases happlies with
        | named hkeyword h hmem =>
            simp only [List.mem_cons, List.not_mem_nil, or_false] at hkeyword
            rcases hkeyword with rfl | rfl
            · obtain rfl := Json.obj.inj (Option.some.inj h)
              exact Or.inr (Prod.mk.inj (List.mem_singleton.mp hmem)).2
            · cases h
        | whole hkeyword h =>
            simp only [List.mem_cons, List.not_mem_nil, or_false] at hkeyword
            rcases hkeyword with rfl | rfl | rfl | rfl <;> cases h
        | listed hkeyword h =>
            simp only [List.mem_cons, List.not_mem_nil, or_false] at hkeyword
            rcases hkeyword with rfl | rfl | rfl <;> cases h
        | dependency h | items h | item h | rest h | branch _ h | condition _ h => cases h
      · obtain rfl := Json.obj.inj hmembers
        cases hnoref

theorem legible_titled (title : String) : Standalone.Legible ⟨.draft7, true⟩
    [("title", .str title), ("type", .str "object"),
      ("properties", .obj [("next", .obj [("$ref", .str "#/definitions/A")])])] where
  readable := by
    simp only [List.forall_mem_cons, List.not_mem_nil, false_implies, implies_true, and_true]
    exact ⟨⟨_, rfl⟩, ⟨_, rfl⟩, ⟨_, rfl⟩⟩
  content := by simp [Standalone.DemandsContent]
  additional := by simp [Json.Members.get?, List.lookup_cons]
  bounds := by simp
  names := by simp
  canonical := by simp [Json.HasCanonicalNumbers, Json.values, Json.valuesOfMembers]

theorem readsAsEmitted_titled (title : String)
    (hnone : Draft.draft7.idKey ∉ (loneDocument .draft7 (titled title)).root.texts) :
    ReadsAsEmitted {} (lone (titled title)) (definitionPointer "A") (loneDocument .draft7 (titled title))
      (titled title) := by
  have hreaches {r : String} (h : Meaning.Reaches (resolveLocal? (lone (titled title))) (titled title) r) :
      r = definitionPointer "A" := by
    rw [definitionPointer_lone]
    induction h with
    | asked hasks => exact (of_asks_titled hasks).2
    | step _ hr hasks ih =>
        rw [ih, ← definitionPointer_lone, resolveLocal?_lone] at hr
        obtain rfl := Option.some.inj hr
        exact (of_asks_titled hasks).2
  refine ReadsAsEmitted.of_notMem (resolveLocal?_lone _) (definitionPointer_ne_hash "A")
    (isPlainReference_definitionPointer "A") hnone ?_ ?_ ?_ ?_
  · rintro r hr
    rw [hreaches hr]
    exact isPlainReference_definitionPointer "A"
  · rintro r hr
    rw [hreaches hr]
    exact ⟨definitionPointer_ne_hash "A", by rw [← lone, resolveLocal?_lone]; rfl⟩
  · refine Meaning.not_endless_of_rank (fun _ => 0) fun r r' hr ⟨u, hu, hasks⟩ => ?_
    rw [hreaches hr, ← lone, resolveLocal?_lone] at hu
    obtain rfl := Option.some.inj hu
    exact absurd (of_asks_titled hasks).1 (by simp)
  · intro members hvisited href
    rcases eq_or_eq_of_visited_titled hvisited with h | h
    · obtain rfl := Json.obj.inj h
      exact legible_titled title
    · obtain rfl := Json.obj.inj h
      cases href

/-- The title is not in the text. -/
theorem exists_source_titled : ∃ text, ∀ title,
    Standalone.source (lone (titled title)) true (definitionPointer "A") = .ok text := by
  -- the object calls the function of its member, which calls that of the object again
  let functions := [some (Standalone.functionCode 0 ((Standalone.body true (titled "") "").lines [1])),
    some (Standalone.functionCode 1 [.line ("return " ++ Standalone.selfCall 0 "errors" ++ ";")])]
  have hlink (title : String) : Standalone.link (lone (titled title)) true (definitionPointer "A")
      = .ok (0, ⟨functions, [(definitionPointer "A", 0)], []⟩) := by
    unfold Standalone.link Standalone.linkReference
    rw [resolveLocal?_lone]
    rfl
  refine ⟨Layout.render "  " (Standalone.moduleCalls 0 ⟨functions, [(definitionPointer "A", 0)], []⟩), fun title => ?_⟩
  unfold Standalone.source
  rw [hlink]
  rfl

/-- Two titles, which no validator tells apart. -/
theorem accepts_eq_of_source_eq_titled :
    ∃ b b' text,
      bindPointer? {} (lone (titled "Node")) (definitionPointer "A") = some b
        ∧ bindPointer? {} (lone (titled "Item")) (definitionPointer "A") = some b'
        ∧ (builtIn {}).standaloneSource (lone (titled "Node")) b = .ok text
        ∧ (builtIn {}).standaloneSource (lone (titled "Item")) b' = .ok text
        ∧ ∀ v, b.accepts v = b'.accepts v := by
  obtain ⟨b, hb, -⟩ := bindPointer?_lone {} (titled "Node") (by decide) rfl rfl
  obtain ⟨b', hb', -⟩ := bindPointer?_lone {} (titled "Item") (by decide) rfl rfl
  obtain ⟨text, htext⟩ := exists_source_titled
  have hsource : (builtIn {}).standaloneSource (lone (titled "Node")) b = .ok text := by
    simp only [builtIn, pointer_of_bindPointer? hb, htext, Except.mapError]
  have hsource' : (builtIn {}).standaloneSource (lone (titled "Item")) b' = .ok text := by
    simp only [builtIn, pointer_of_bindPointer? hb', htext, Except.mapError]
  exact ⟨b, b', text, hb, hb', hsource, hsource', accepts_eq_of_source_eq (readsAsEmitted_titled "Node" (by decide))
    (readsAsEmitted_titled "Item" (by decide)) hb hb' hsource hsource'⟩

end ValidatorCompiler

/-! ## A text without its encoding -/

/-- A string that has to be encoded. -/
def encoded : Json := .obj [("type", .str "string"), ("contentEncoding", .str "base64")]

/-- Any string. -/
def unencoded : Json := .obj [("type", .str "string")]

/-- Two definitions with the same module, of which the engine holds only one to an encoding. -/
theorem same_source_other_verdict :
    ∃ b b' text,
      ValidatorCompiler.bindPointer? {} (lone encoded) "#/definitions/A" = some b
        ∧ ValidatorCompiler.bindPointer? {} (lone unencoded) "#/definitions/A" = some b'
        ∧ Standalone.source (lone encoded) true "#/definitions/A" = .ok text
        ∧ Standalone.source (lone unencoded) true "#/definitions/A" = .ok text
        ∧ b.accepts (.str "%") = false
        ∧ b'.accepts (.str "%") = true := by
  rw [← definitionPointer_lone]
  obtain ⟨b, hb, hverdict⟩ := bindPointer?_lone {} encoded (by decide) rfl rfl
  obtain ⟨b', hb', hverdict'⟩ := bindPointer?_lone {} unencoded (by decide) rfl rfl
  have hlink : Standalone.link (lone encoded) true (definitionPointer "A")
      = Standalone.link (lone unencoded) true (definitionPointer "A") := by
    unfold Standalone.link Standalone.linkReference
    rw [resolveLocal?_lone, resolveLocal?_lone]
    rfl
  have hsource : Standalone.source (lone encoded) true (definitionPointer "A")
      = Standalone.source (lone unencoded) true (definitionPointer "A") := by
    unfold Standalone.source
    rw [hlink]
  have hok : (Standalone.source (lone unencoded) true (definitionPointer "A")).isOk = true := by
    unfold Standalone.source Standalone.link Standalone.linkReference
    rw [resolveLocal?_lone]
    rfl
  obtain ⟨follow, hrejects⟩ := hverdict (.str "%")
  obtain ⟨follow', haccepts⟩ := hverdict' (.str "%")
  cases htext : Standalone.source (lone unencoded) true (definitionPointer "A") with
  | error f =>
      rw [htext] at hok
      exact absurd hok (by simp [Except.isOk, Except.toBool])
  | ok text =>
      refine ⟨b, b', text, hb, hb', hsource.trans htext, rfl, ?_, ?_⟩
      · rw [hrejects]
        rfl
      · rw [haccepts]
        rfl

end DecoderForge
