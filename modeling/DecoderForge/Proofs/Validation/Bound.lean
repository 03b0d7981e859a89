import DecoderForge.Proofs.Validation.Meaning
import DecoderForge.Proofs.Validation.Wrapper

/-!
# DecoderForge — what references mean to a bound validator

Inside the wrapper a reference to anything in the schema leads where it leads in the schema; `#` leads to the
wrapper, which is the definition again, and not to the schema, which demands nothing.

## The architecture

* **`Meaning.bound`** — what references mean to a bound validator.
* **`Document.ReadsAs`** — a reference that the engine looks up as a meaning does.
* **`Document.issuesAt_eq_nil_iff`** — the engine's verdicts are those of the meaning, step by step.
* **`Meaning.IsPlain`** — references and identifiers for which this holds, and no endless references.
* **`Document.issues_reference_eq_nil_iff`** — what passes a reference.
* **`ValidatorCompiler.bound_accepts_iff`** — what a bound validator accepts.
* **`ValidatorCompiler.root_reference_is_definition`** — a `#` that the validator takes for its definition.
-/

namespace DecoderForge

open SchemaReading

/-! ## Step by step -/

namespace Document

/-- A reference that the engine looks up as a meaning does: it finds the same schema, or nothing that any
value passes. -/
def ReadsAs (d : Document) (dialect : Dialect) (m : Meaning) (r : String) : Prop :=
  ∃ url, defaultScope.join r = .ok url
    ∧ ((∃ t, m r = some t ∧ d.resolve url = .ok (defaultScope, t) ∧ Constraint.Unmoved dialect.draft defaultScope t)
      ∨ m r = none ∧ ∀ n v path, d.issuesAt dialect n url v path ≠ [])

/-- How the engine's URLs correspond to references as they are written. -/
def Joined (m : Meaning) (root : Json) (_ : Bool) (url url' : Url) : Prop :=
  ∃ r, defaultScope.join r = .ok url ∧ url' = Meaning.written r ∧ m.Reaches root r

variable {d : Document} {dialect : Dialect} {m : Meaning} {root : Json}

theorem issuesAt_succ_eq_nil_iff {url scope : Url} {t : Json} (hresolve : d.resolve url = .ok (scope, t)) (n : Nat)
    (v : Json) (path : String) : d.issuesAt dialect (n + 1) url v path = []
      ↔ ∃ c, Constraint.ofSchema dialect scope t = .ok c ∧ c.issues (d.issuesAt dialect n) v path = [] := by
  rw [issuesAt, hresolve]
  cases hread : Constraint.ofSchema dialect scope t with
  | error reason => simp [hread]
  | ok c => simp [hread]

/-- A schema finds what it finds by the meaning, if the same goes for the references in it. -/
theorem passes_iff_allows {t : Json} (hunmoved : Constraint.Unmoved dialect.draft defaultScope t)
    (hreads : ∀ same r, t.Asks same r → m.Reaches root r ∧ d.ReadsAs dialect m r) {n : Nat}
    (hagree : ∀ r url, m.Reaches root r → defaultScope.join r = .ok url → ∀ v path,
      d.issuesAt dialect n url v path = [] ↔ m.issuesAt dialect n (Meaning.written r) v path = [])
    (v : Json) (path : String) :
    (∃ c, Constraint.ofSchema dialect defaultScope t = .ok c ∧ c.issues (d.issuesAt dialect n) v path = [])
      ↔ ∃ c, Meaning.read dialect t = .ok c ∧ c.issues (m.issuesAt dialect n) v path = [] := by
  -- both read the schema the same way but for the names of its references
  have halike : ReadAlike (Constraint.Alike (.on v (Joined m root)) true)
      (Constraint.readBy dialect defaultScope.join t) (Meaning.read dialect t) := by
    refine Constraint.readBy_alike t fun same r hr => ?_
    obtain ⟨hreach, url, hurl, -⟩ := hreads same r hr
    exact ⟨url, _, hurl, rfl, r, hurl, rfl, hreach⟩
  have hunder : Constraint.AgreeUnder (.on v (Joined m root)) (d.issuesAt dialect n) (m.issuesAt dialect n) := by
    rintro same url _ ⟨r, hurl, rfl, hr⟩ w path' -
    exact hagree r url hr hurl w path'
  rw [Constraint.ofSchema_eq_readBy t hunmoved]
  generalize Constraint.readBy dialect defaultScope.join t = x, Meaning.read dialect t = y at halike
  cases halike with
  | error e => simp
  | ok hc => simpa using Constraint.agree_of_alike hunder hc v path rfl

variable (h : ∀ r, m.Reaches root r → d.ReadsAs dialect m r)

include h

/-- **The engine's verdicts are those of the meaning**, where it looks up every reference as the meaning
does. -/
theorem issuesAt_eq_nil_iff : ∀ (n : Nat) (r : String) (url : Url), m.Reaches root r →
    defaultScope.join r = .ok url → ∀ v path,
      d.issuesAt dialect n url v path = [] ↔ m.issuesAt dialect n (Meaning.written r) v path = [] := by
  intro n
  induction n with
  | zero => simp [issuesAt, Meaning.issuesAt]
  | succ n ih =>
      intro r url hr hurl v path
      obtain ⟨url', hurl', hfound⟩ := h r hr
      obtain rfl : url = url' := Except.ok.inj (hurl.symm.trans hurl')
      rcases hfound with ⟨t, hm, hresolve, hunmoved⟩ | ⟨hm, hrejects⟩
      · rw [issuesAt_succ_eq_nil_iff hresolve, Meaning.issuesAt_succ_eq_nil_iff hm]
        exact passes_iff_allows hunmoved (fun same r' hasks => ⟨hr.step hm hasks, h r' (hr.step hm hasks)⟩) ih v path
      · rw [Meaning.issuesAt, Meaning.spelling_written, hm]
        simp [hrejects]

/-- A reference to a schema is a step away from the schema. -/
theorem issuesAt_eq_nil_iff_allows {r : String} {url : Url} (hr : d.ReadsAs dialect m r) (hm : m r = some root)
    (hurl : defaultScope.join r = .ok url) (n : Nat) (v : Json) :
    d.issuesAt dialect (n + 1) url v "" = [] ↔ m.Allows dialect n root v := by
  obtain ⟨url', hurl', ⟨t, hm', hresolve, hunmoved⟩ | ⟨hnone, -⟩⟩ := hr
  · obtain rfl : url = url' := Except.ok.inj (hurl.symm.trans hurl')
    obtain rfl : root = t := Option.some.inj (hm.symm.trans hm')
    rw [issuesAt_succ_eq_nil_iff hresolve]
    exact passes_iff_allows hunmoved (fun same r' hasks => ⟨.asked hasks, h r' (.asked hasks)⟩)
      (issuesAt_eq_nil_iff h n) v ""
  · exact absurd (hm.symm.trans hnone) (by simp)

end Document

/-! ## Identifiers -/

namespace Document

/-- A reference to another document, which is not there. -/
def LeadsOutside (d : Document) (r : String) : Prop :=
  r.toList.head? ≠ some '#' ∧ ∃ url, defaultScope.join r = .ok url ∧ d.document? url.withoutFragment = none

/-- Identifiers play no part when a reference is looked up: none spells the reference, and at most one is
passed on the way. -/
structure Overlooks (d : Document) (r : String) : Prop where
  unspelled : ∀ url, defaultScope.join r = .ok url → d.named.lookup (String.ofList url.toText) = none
  passed : ∀ fragment pointer ids t, r.toList = '#' :: fragment →
    Pointer.unescapeFragment? fragment = some pointer →
      atPointer d.draft d.root pointer = some (ids, t) → ids.tail = []

theorem unmoved_of_notMem {draft : Draft} {scope : Url} {t : Json} (h : draft.idKey ∉ t.texts) :
    Constraint.Unmoved draft scope t := by
  intro x hx
  have hnone : draft.idKey ∉ x.texts := by
    rcases hx with rfl | hinside
    · exact h
    · exact fun hmem => h (hinside.texts_subset hmem)
  unfold enter
  rw [schemaId?_of_notMem hnone]

end Document

namespace Meaning

/-- What references mean to a validator that is bound to a definition: `#` is the wrapper, which demands what
the definition demands, and all else is what the schema says. -/
def bound (schema : Json) (pointer : String) : Meaning := fun r =>
  if r = "#" then some (ValidatorCompiler.referring schema pointer) else resolveLocal? schema r

/-- A definition whose references are looked up as they are written, and come to an end. -/
structure IsPlain (m : Meaning) (d : Document) (pointer : String) (t : Json) : Prop where
  references : ∀ r, m.Reaches t r → isPlainReference r = true ∨ d.LeadsOutside r
  overlooked : ∀ r, r = pointer ∨ m.Reaches t r → d.Overlooks r
  /-- No identifier changes the URL to which references are relative. -/
  unmoved : ∀ r, r = pointer ∨ m.Reaches t r → ∀ u, m r = some u →
    Constraint.Unmoved d.draft Document.defaultScope u
  ends : ¬ m.Endless t

theorem of_bound {schema u : Json} {pointer r : String} (h : bound schema pointer r = some u) :
    u = ValidatorCompiler.referring schema pointer ∨ u = schema ∨ u.Inside schema := by
  unfold bound at h
  split at h
  · exact Or.inl (Option.some.inj h).symm
  · exact Or.inr (Json.inside_of_resolveLocal? h)

/-- Where there are no identifiers it is enough that every reference is plain and comes to an end. -/
theorem isPlain_of_notMem {m : Meaning} {d : Document} {pointer : String} {t : Json} (hnamed : d.named = [])
    (hnone : d.draft.idKey ∉ d.root.texts) (hmeant : ∀ r u, m r = some u → d.draft.idKey ∉ u.texts)
    (hplain : ∀ r, m.Reaches t r → isPlainReference r = true) (hends : ¬ m.Endless t) : m.IsPlain d pointer t where
  references r hr := Or.inl (hplain r hr)
  overlooked r _ :=
    { unspelled := fun url _ => by
        rw [hnamed]
        rfl
      passed := fun _ _ ids _ _ _ hfound => by
        rw [Document.ids_of_atPointer hnone hfound]
        rfl }
  unmoved r _ u hu := Document.unmoved_of_notMem (hmeant r u hu)
  ends := hends

/-- A schema of definitions without identifiers means nothing with identifiers. -/
theorem notMem_of_bound {draft : Draft} {entries : Json.Members} {pointer r : String} {u : Json}
    (hnone : draft.idKey ∉ (ValidatorCompiler.referring (definitionsSchema entries) pointer).texts)
    (hu : bound (definitionsSchema entries) pointer r = some u) : draft.idKey ∉ u.texts := by
  have hschema := texts_subset_wrapper entries pointer
  rcases of_bound hu with rfl | rfl | hinside
  · exact hnone
  · exact fun hmem => hnone (hschema hmem)
  · exact fun hmem => hnone (hschema (hinside.texts_subset hmem))

/-- In the wrapper a reference leads to what it means, or to the text of the new reference. -/
theorem bound_eq_or (entries : Json.Members) (pointer r : String) :
    resolveLocal? (ValidatorCompiler.referring (definitionsSchema entries) pointer) r
        = bound (definitionsSchema entries) pointer r
      ∨ bound (definitionsSchema entries) pointer r = none
        ∧ resolveLocal? (ValidatorCompiler.referring (definitionsSchema entries) pointer) r = some (.str pointer) := by
  unfold bound
  by_cases hr : r = "#"
  · rw [if_pos hr, hr]
    exact Or.inl rfl
  · rw [if_neg hr]
    exact resolveLocal?_wrapper entries pointer hr

end Meaning

namespace Document

variable {d : Document} {dialect : Dialect} {entries : Json.Members} {pointer r : String}

/-- What is no schema is passed by nothing, and neither is what is not found. -/
theorem issuesAt_ne_nil {url : Url} (hresolve : (∃ fault, d.resolve url = .error fault)
    ∨ ∃ scope s, d.resolve url = .ok (scope, .str s)) (n : Nat) (v : Json) (path : String) :
    d.issuesAt dialect n url v path ≠ [] := by
  cases n with
  | zero => simp [issuesAt]
  | succ n =>
      rcases hresolve with ⟨fault, hresolve⟩ | ⟨scope, s, hresolve⟩
      · rw [issuesAt, hresolve]
        simp
      · rw [issuesAt, hresolve]
        dsimp only
        rw [Constraint.ofSchema.eq_def]
        simp

/-- A plain reference is looked up as it is meant. -/
theorem readsAs_of_isPlainReference (hroot : d.root = definitionsSchema entries) (hplain : isPlainReference r = true)
    (hoverlooked : d.Overlooks r)
    (hunmoved : ∀ t, Meaning.bound d.root pointer r = some t → Constraint.Unmoved dialect.draft defaultScope t) :
    (d.wrapped pointer).ReadsAs dialect (Meaning.bound d.root pointer) r := by
  obtain ⟨fragment, hchars, hclean, hescaped⟩ := isPlainReference_iff.mp hplain
  have hurl := join_plain hchars hclean
  have hmeans := Meaning.bound_eq_or entries pointer r
  rw [← hroot] at hmeans
  have hpassed : ∀ p, Pointer.unescapeFragment? fragment = some p → ∀ ids t,
      atPointer (d.wrapped pointer).draft (d.wrapped pointer).root p = some (ids, t) → ids.tail = [] := by
    intro p hp ids t hfound
    rcases atPointer_wrapper entries pointer d.draft p with heq | ⟨-, hnew⟩
    · rw [← hroot] at heq
      exact hoverlooked.passed fragment p ids t hchars hp (heq ▸ hfound)
    · rw [← hroot] at hnew
      obtain ⟨rfl, -⟩ := Prod.mk.inj (Option.some.inj (hnew.symm.trans hfound))
      rfl
  refine ⟨_, hurl, ?_⟩
  rcases resolve_plain (d := d.wrapped pointer) hchars hescaped rfl (hoverlooked.unspelled _ hurl) hpassed with
    ⟨t, hlocal, hresolve⟩ | ⟨hlocal, hfault⟩
  · rcases hmeans with heq | ⟨hnone, hnew⟩
    · have hmeant := heq.symm.trans hlocal
      exact Or.inl ⟨t, hmeant, hresolve, hunmoved t hmeant⟩
    -- the text of the new reference is found, where the schema has nothing; neither passes a value
    · obtain rfl : .str pointer = t := Option.some.inj (hnew.symm.trans hlocal)
      exact Or.inr ⟨hnone, issuesAt_ne_nil (Or.inr ⟨_, _, hresolve⟩)⟩
  · have hnone : Meaning.bound d.root pointer r = none := by
      rcases hmeans with heq | ⟨hnone, -⟩
      · exact heq.symm.trans hlocal
      · exact hnone
    exact Or.inr ⟨hnone, issuesAt_ne_nil (Or.inl hfault)⟩

/-- A reference to another document leads nowhere. -/
theorem LeadsOutside.resolveLocal?_eq_none (h : d.LeadsOutside r) (root : Json) : resolveLocal? root r = none := by
  unfold resolveLocal?
  split
  · next hchars => exact absurd (by rw [hchars]; rfl) h.1
  · rfl

theorem LeadsOutside.wrapped (h : d.LeadsOutside r) : (d.wrapped pointer).LeadsOutside r := by
  obtain ⟨hhash, url, hurl, hunknown⟩ := h
  refine ⟨hhash, url, hurl, ?_⟩
  unfold document? at hunknown ⊢
  split at hunknown
  · exact absurd hunknown (by simp)
  · next hother =>
    rw [if_neg hother]
    exact hunknown

/-- The engine finds nothing there, if that is how the reference is meant. -/
theorem LeadsOutside.readsAs {m : Meaning} (h : d.LeadsOutside r)
    (hunspelled : ∀ url, defaultScope.join r = .ok url → d.named.lookup (String.ofList url.toText) = none)
    (hnone : m r = none) : d.ReadsAs dialect m r := by
  obtain ⟨-, url, hurl, hunknown⟩ := h
  exact ⟨url, hurl, Or.inr ⟨hnone, issuesAt_ne_nil (Or.inl (resolve_outside (hunspelled url hurl) hunknown))⟩⟩

/-- **The engine looks references up as they are meant**, from the reference to the definition onwards. -/
theorem readsAs_bound {formats : Bool} {t : Json} (hroot : d.root = definitionsSchema entries)
    (hpointer : isPlainReference pointer = true) (hplain : (Meaning.bound d.root pointer).IsPlain d pointer t)
    (hr : r = pointer ∨ (Meaning.bound d.root pointer).Reaches t r) :
    (d.wrapped pointer).ReadsAs ⟨d.draft, formats⟩ (Meaning.bound d.root pointer) r := by
  have hoverlooked := hplain.overlooked r hr
  have hreference : isPlainReference r = true ∨ d.LeadsOutside r := by
    rcases hr with rfl | hreach
    · exact Or.inl hpointer
    · exact hplain.references r hreach
  rcases hreference with hreference | houtside
  · exact readsAs_of_isPlainReference hroot hreference hoverlooked (hplain.unmoved r hr)
  · have hr : r ≠ "#" := by
      rintro rfl
      exact houtside.1 rfl
    refine houtside.wrapped.readsAs hoverlooked.unspelled ?_
    rw [Meaning.bound, if_neg hr]
    exact houtside.resolveLocal?_eq_none d.root

end Document

/-! ## Enough steps -/

namespace Meaning

variable {entries : Json.Members} {pointer : String} {t : Json}

/-- What is reached from a definition is written in the wrapper. -/
theorem mem_references_of_reaches {d : Document} (hroot : d.root = definitionsSchema entries) {key : String}
    (hget : entries.get? key = some t) {r : String} (h : (bound d.root pointer).Reaches t r) :
    r ∈ (d.wrapped pointer).root.references := by
  show r ∈ (ValidatorCompiler.referring d.root pointer).references
  rw [hroot] at h ⊢
  have hwrapper := references_subset_wrapper entries pointer
  have hentries : Json.Inside (.obj entries) (definitionsSchema entries) := .member List.mem_cons_self
  refine h.mem (fun x hx => hwrapper ?_) fun r' u hr' => ?_
  · exact ((Json.inside_of_get? hget).trans hentries).references_subset hx
  · rcases of_bound hr' with rfl | rfl | hinside
    · exact List.Subset.refl _
    · exact hwrapper
    · exact List.Subset.trans hinside.references_subset hwrapper

end Meaning

/-- **The engine follows as many references as are enough**, with one more that leads into the schema. -/
theorem Document.enough_le_followLimit (d : Document) (v : Json) :
    (v.height + 1) * (d.root.references.length + 1) + 1 ≤ d.followLimit v := by
  have hle : d.root.references.length ≤ d.root.size := Json.length_references_le_size d.root
  calc (v.height + 1) * (d.root.references.length + 1) + 1
      ≤ (v.height + 1) * (d.root.size + 1) + (d.root.size + 1) := by gcongr; omega
    _ = (v.height + 2) * (d.root.size + 1) := (Nat.succ_mul _ _).symm
    _ ≤ (v.height + 2) * (d.root.size + 1) ^ 2 := Nat.mul_le_mul_left _ (Nat.le_self_pow (by decide) _)

/-- **What passes a reference** is what it means, if the engine looks up every reference as it is meant and none is
endless. -/
theorem Document.issues_reference_eq_nil_iff {d : Document} {dialect : Dialect} {m : Meaning} {pointer : String}
    {t : Json} {url : Url} (hurl : Document.defaultScope.join pointer = .ok url) (hmeans : m pointer = some t)
    (hreads : ∀ r, r = pointer ∨ m.Reaches t r → d.ReadsAs dialect m r)
    (hwritten : ∀ r, m.Reaches t r → r ∈ d.root.references) (hends : ¬ m.Endless t) (v : Json) :
    d.issues dialect (.reference url) v = [] ↔ m.Accepts dialect t v := by
  have hsteps : ∀ r, m.Reaches t r → m.Ends (d.root.references.length + 1) r := fun r hr =>
    Meaning.ends_of_not_endless hends _ hr fun r' hleads => hwritten r' (hr.transGen hleads)
  have henough := d.enough_le_followLimit v
  obtain ⟨n, hn⟩ : ∃ n, d.followLimit v = n + 1 :=
    Nat.exists_eq_add_one_of_ne_zero (Nat.ne_of_gt (Nat.lt_of_lt_of_le (Nat.succ_pos _) henough))
  rw [hn] at henough
  -- the first step leads to the schema under the reference
  rw [Document.issues, Constraint.issues, hn,
    Document.issuesAt_eq_nil_iff_allows (fun r hr => hreads r (Or.inr hr)) (hreads pointer (Or.inl rfl)) hmeans hurl]
  exact Meaning.allows_iff_accepts hsteps (Nat.le_of_succ_le_succ henough)

/-! ## What a bound validator accepts -/

namespace ValidatorCompiler

theorem bound_definitionPointer {entries : Json.Members} {key : String} {t : Json} (hget : entries.get? key = some t) :
    Meaning.bound (definitionsSchema entries) (definitionPointer key) (definitionPointer key) = some t := by
  have hroot : (definitionsSchema entries).get? definitionsKey = some (.obj entries) := by
    simp [definitionsSchema, Json.get?, Json.Members.get?]
  rw [Meaning.bound, if_neg (definitionPointer_ne_hash key), resolveLocal?_definitionPointer hroot, hget]

section Accepts

variable {o : ValidatorOptions} {ds : Definitions} {d : Document} {key : String} {t : Json} {b : BoundValidator}
  (hget : ds.entries.get? key = some t)
  (hbound : bindPointer? o ds.toSchema (definitionPointer key) = some b)
  (hd : Document.ofSchema o.draft ds.toSchema = .ok d)
  (hplain : (Meaning.bound ds.toSchema (definitionPointer key)).IsPlain d (definitionPointer key) t)

include hget hbound hd hplain

/-- A bound validator accepts what its definition accepts, where `#` means the definition again. -/
theorem accepts_iff_bound_meaning (v : Json) : b.accepts v = true
    ↔ (Meaning.bound ds.toSchema (definitionPointer key)).Accepts ⟨o.draft, o.validateFormats⟩ t v := by
  obtain ⟨d', url, hd', hroot, hdraft, hurl, hissues⟩ := bindPointer?_eq_some hbound
  obtain rfl : d = d' := Except.ok.inj (hd.symm.trans hd')
  have hmeans : Meaning.bound d.root (definitionPointer key) (definitionPointer key) = some t :=
    hroot ▸ bound_definitionPointer hget
  rw [show ds.toSchema = d.root from hroot.symm] at hplain ⊢
  rw [← hdraft] at hissues ⊢
  rw [BoundValidator.accepts, hissues, List.isEmpty_iff]
  exact Document.issues_reference_eq_nil_iff hurl hmeans
    (fun r hr => Document.readsAs_bound hroot (isPlainReference_definitionPointer key) hplain hr)
    (fun r hr => Meaning.mem_references_of_reaches hroot hget hr) hplain.ends v

/-- **What a bound validator accepts**: what the definition accepts, where `#` in it means the definition and
all else what the schema says; so what the definition accepts as the schema says it, if `#` is not reached. -/
theorem bound_accepts_iff (v : Json) :
    (b.accepts v = true
      ↔ (Meaning.bound ds.toSchema (definitionPointer key)).Accepts ⟨o.draft, o.validateFormats⟩ t v)
    ∧ (¬ Meaning.Reaches (resolveLocal? ds.toSchema) t "#" →
        (b.accepts v = true ↔ Meaning.Accepts (resolveLocal? ds.toSchema) ⟨o.draft, o.validateFormats⟩ t v)) := by
  have haccepts := accepts_iff_bound_meaning hget hbound hd hplain v
  refine ⟨haccepts, fun hnever => haccepts.trans (Meaning.accepts_congr (fun r hr => ?_) v).symm⟩
  have hr : r ≠ "#" := by
    rintro rfl
    exact hnever hr
  exact (if_neg hr).symm

end Accepts

/-! ## One definition that refers -/

/-- Objects in which the member `a` is as a reference says. -/
def objectWith (r : String) : Json :=
  .obj [("type", .str "object"), ("properties", .obj [("a", .obj [("$ref", .str r)])])]

/-- One definition of such objects. -/
def oneDefinition (r : String) : Definitions := ⟨[("A", objectWith r)], by simp⟩

/-- The only reference in such a definition is about the member. -/
theorem of_asks_objectWith {r r' : String} {same : Bool} (h : (objectWith r).Asks same r') : same = false ∧ r' = r := by
  rcases h.of_obj with ⟨href, -⟩ | ⟨-, keyword, v, part, same', hmem, ⟨-, hpart⟩, hasks, hsame⟩
  · exact absurd href (by simp [Json.Members.get?, List.lookup_cons])
  · simp only [List.mem_cons, Prod.mk.injEq, List.not_mem_nil, or_false] at hmem
    rcases hmem with ⟨rfl, rfl⟩ | ⟨rfl, rfl⟩
    · exact hpart.elim
    · obtain ⟨ms, name, hms, hmem⟩ := hpart
      obtain rfl := Json.obj.inj hms
      obtain ⟨-, rfl⟩ := Prod.mk.inj (List.mem_singleton.mp hmem)
      exact ⟨by simp [hsame, isAboutWhole], hasks.of_reference rfl⟩

theorem not_asks_definitionsSchema {entries : Json.Members} {r : String} {same : Bool} :
    ¬ (definitionsSchema entries).Asks same r := by
  intro h
  rcases h.of_obj with ⟨href, -⟩ | ⟨-, keyword, v, part, same', hmem, ⟨hcounts, -⟩, -⟩
  · exact absurd href (by simp [Json.Members.get?, List.lookup_cons, definitionsKey])
  · exact hcounts (Prod.mk.inj (List.mem_singleton.mp hmem)).1

theorem isSome_bindPointer?_oneDefinition {r : String} (h : Draft.draft7.admits ("A", objectWith r) = true) :
    (bindPointer? {} (oneDefinition r).toSchema (definitionPointer "A")).isSome = true := by
  refine (bindPointer?_isSome_iff ?_).mpr ⟨?_, by decide +kernel, by decide +kernel⟩
  · rw [resolveLocal?_definitionPointer (show _ = some (Json.obj [("A", objectWith r)]) from rfl)]
    rfl
  · rintro e he
    obtain rfl := List.mem_singleton.mp he
    exact h

/-- The document of the definition. -/
def oneDocument (r : String) : Document := ⟨.draft7, (oneDefinition r).toSchema, Document.defaultScope, []⟩

/-- What the definition demands. -/
def objectConstraint (r : String) : Constraint :=
  .all [.assert (.type .draft7 [.object]), .properties [("a", .reference (Meaning.written r))]]

theorem read_objectWith (r : String) : Meaning.read ⟨.draft7, true⟩ (objectWith r) = .ok (objectConstraint r) := rfl

theorem issues_objectConstraint (r : String) (follow : Url → Constraint.Finder) (v : Json) (path : String) :
    (objectConstraint r).issues follow (.obj [("a", v)]) path
      = follow (Meaning.written r) v (Issue.below path "a") := by
  simp [objectConstraint, Constraint.issues, Constraint.issuesOfAll, Constraint.issuesOfProperties, Assertion.faults,
    Assertion.check, TypeName.admits, Json.Members.get?]

theorem issues_objectConstraint_null (r : String) (follow : Url → Constraint.Finder) (path : String) :
    (objectConstraint r).issues follow .null path ≠ [] := by
  simp [objectConstraint, Constraint.issues, Constraint.issuesOfAll, Assertion.faults, Assertion.check, TypeName.admits]

/-- What the definition reaches in its schema is its reference. -/
theorem eq_of_reaches_oneDefinition {r r' : String}
    (h : Meaning.Reaches (resolveLocal? (oneDefinition r).toSchema) (objectWith r) r') : r' = r := by
  have hmem : r' ∈ (oneDefinition r).toSchema.references := by
    refine h.mem (fun _ => id) fun s u hu => ?_
    rcases Json.inside_of_resolveLocal? hu with rfl | hinside
    · exact List.Subset.refl _
    · exact hinside.references_subset
  exact List.mem_singleton.mp hmem

/-- What it reaches in the wrapper is its reference, or the reference to it. -/
theorem eq_or_eq_of_reaches_bound {r r' : String}
    (h : (Meaning.bound (oneDefinition r).toSchema (definitionPointer "A")).Reaches (objectWith r) r') :
    r' = r ∨ r' = definitionPointer "A" := by
  have hmem := Meaning.mem_references_of_reaches (d := oneDocument r) rfl
    (show Json.Members.get? [("A", objectWith r)] "A" = some (objectWith r) from rfl) h
  have hreferences : ((oneDocument r).wrapped (definitionPointer "A")).root.references
      = [r, definitionPointer "A"] := rfl
  simpa [hreferences] using hmem

theorem bound_oneDefinition (r : String) :
    Meaning.bound (oneDefinition r).toSchema (definitionPointer "A") (definitionPointer "A") = some (objectWith r) :=
  bound_definitionPointer (show Json.Members.get? [("A", objectWith r)] "A" = _ from rfl)

theorem not_endless_bound {r : String} (hr : r = "#" ∨ r = definitionPointer "A") :
    ¬ (Meaning.bound (oneDefinition r).toSchema (definitionPointer "A")).Endless (objectWith r) := by
  have hne := definitionPointer_ne_hash "A"
  refine Meaning.not_endless_of_rank (fun s => if s = "#" then 1 else 0) fun s s' hs ⟨u, hu, hasks⟩ => ?_
  have hs : s = "#" ∨ s = definitionPointer "A" := by
    rcases eq_or_eq_of_reaches_bound hs with rfl | rfl
    · exact hr
    · exact Or.inr rfl
  rcases hs with rfl | rfl
  · obtain rfl := Option.some.inj hu
    obtain rfl := hasks.of_reference rfl
    simp [hne]
  · obtain rfl := Option.some.inj ((bound_oneDefinition r).symm.trans hu)
    exact absurd (of_asks_objectWith hasks).1 (by simp)

theorem isPlain_oneDefinition {r : String} (hr : r = "#" ∨ r = definitionPointer "A")
    (hnone : Draft.draft7.idKey ∉ ((oneDocument r).wrapped (definitionPointer "A")).root.texts) :
    (Meaning.bound (oneDefinition r).toSchema (definitionPointer "A")).IsPlain (oneDocument r)
      (definitionPointer "A") (objectWith r) := by
  refine Meaning.isPlain_of_notMem rfl (fun hmem => hnone (texts_subset_wrapper _ _ hmem))
    (fun _ _ hu => Meaning.notMem_of_bound hnone hu) (fun r' hr' => ?_) (not_endless_bound hr)
  have hplain : isPlainReference r = true := by
    rcases hr with rfl | rfl
    · decide
    · exact isPlainReference_definitionPointer "A"
  rcases eq_or_eq_of_reaches_bound hr' with rfl | rfl
  · exact hplain
  · exact isPlainReference_definitionPointer "A"

/-- A definition that refers to itself by its pointer, and a value two levels deep. -/
theorem bound_accepts_recursive :
    ∃ b, bindPointer? {} (oneDefinition (definitionPointer "A")).toSchema (definitionPointer "A") = some b
      ∧ (b.accepts (.obj [("a", .obj [("a", .null)])]) = true
        ↔ Meaning.Accepts (resolveLocal? (oneDefinition (definitionPointer "A")).toSchema) ⟨.draft7, true⟩
            (objectWith (definitionPointer "A")) (.obj [("a", .obj [("a", .null)])])) := by
  set r := definitionPointer "A"
  have hnone : Draft.draft7.idKey ∉ (oneDefinition r).toSchema.texts := by decide +kernel
  obtain ⟨b, hb⟩ := Option.isSome_iff_exists.mp (isSome_bindPointer?_oneDefinition (r := r) (by decide +kernel))
  have hnever : ¬ Meaning.Reaches (resolveLocal? (oneDefinition r).toSchema) (objectWith r) "#" := fun h =>
    definitionPointer_ne_hash "A" (eq_of_reaches_oneDefinition h).symm
  have hplain := isPlain_oneDefinition (r := r) (Or.inr rfl) (by decide +kernel)
  exact ⟨b, hb, (bound_accepts_iff rfl hb (Document.ofSchema_of_notMem hnone) hplain _).2 hnever⟩

/-- **A `#` that the validator takes for its definition**: the schema demands nothing of the member, and the
validator wants an object there. -/
theorem root_reference_is_definition :
    ∃ b, bindPointer? {} (oneDefinition "#").toSchema (definitionPointer "A") = some b
      ∧ ¬ Meaning.Endless (resolveLocal? (oneDefinition "#").toSchema) (objectWith "#")
      ∧ Meaning.Accepts (resolveLocal? (oneDefinition "#").toSchema) ⟨.draft7, true⟩ (objectWith "#")
          (.obj [("a", .null)])
      ∧ b.accepts (.obj [("a", .null)]) = false := by
  have hnone : Draft.draft7.idKey ∉ (oneDefinition "#").toSchema.texts := by decide +kernel
  obtain ⟨b, hb⟩ := Option.isSome_iff_exists.mp (isSome_bindPointer?_oneDefinition (r := "#") (by decide +kernel))
  have hschema : resolveLocal? (oneDefinition "#").toSchema "#" = some (oneDefinition "#").toSchema := rfl
  have hwrapper : Meaning.bound (oneDefinition "#").toSchema (definitionPointer "A") "#"
      = some (referring (oneDefinition "#").toSchema (definitionPointer "A")) := rfl
  refine ⟨b, hb, ?_, ?_, ?_⟩
  · refine Meaning.not_endless_of_rank (fun _ => 0) fun s s' hs ⟨u, hu, hasks⟩ => ?_
    obtain rfl := eq_of_reaches_oneDefinition hs
    obtain rfl := Option.some.inj (hschema.symm.trans hu)
    exact absurd hasks not_asks_definitionsSchema
  · refine ⟨1, fun n hn => ⟨_, read_objectWith "#", ?_⟩⟩
    obtain ⟨n, rfl⟩ := Nat.exists_eq_add_of_le hn
    rw [issues_objectConstraint, Nat.add_comm, Meaning.issuesAt_succ_eq_nil_iff hschema]
    exact ⟨.all [.any], rfl, rfl⟩
  · rw [← Bool.not_eq_true, accepts_iff_bound_meaning rfl hb (Document.ofSchema_of_notMem hnone)
      (isPlain_oneDefinition (Or.inl rfl) (by decide +kernel))]
    rintro ⟨enough, h⟩
    obtain ⟨c, hc, hissues⟩ := h (enough + 2) (Nat.le_add_right _ _)
    obtain rfl := Except.ok.inj ((read_objectWith "#").symm.trans hc)
    -- the member is held against the wrapper, which refers to the definition
    rw [issues_objectConstraint, Meaning.issuesAt_succ_eq_nil_iff hwrapper] at hissues
    obtain ⟨c, hc, hissues⟩ := hissues
    obtain rfl : .reference (Meaning.written (definitionPointer "A")) = c := Except.ok.inj hc
    rw [Constraint.issues, Meaning.issuesAt_succ_eq_nil_iff (bound_oneDefinition "#")] at hissues
    obtain ⟨c, hc, hissues⟩ := hissues
    obtain rfl := Except.ok.inj ((read_objectWith "#").symm.trans hc)
    exact issues_objectConstraint_null _ _ _ hissues

end ValidatorCompiler

end DecoderForge
