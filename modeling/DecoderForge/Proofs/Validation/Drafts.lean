import DecoderForge.Proofs.Validation.Identified
import DecoderForge.Proofs.Validation.Parts
import DecoderForge.Validation.Binding

/-!
# DecoderForge — what depends on the draft

Drafts differ in the keywords and the formats that they know, in the member that is an identifier, and in whether a
float can be an integer.  Where nothing of this is met on the way of a validator through its document, two drafts
give the same verdict.

## The architecture

* **`SchemaReading.isDated`** — a keyword with its value on which two drafts may differ.
* **`Document.Reads`** — the schemas of a document that a validator may come to.
* **`Document.Undated`** — a document in which two drafts do not differ on a value.
* **`Document.ofSchema_alike`**, **`Document.issuesAt_alike`** — one schema, and one look-up, under two drafts.
* **`Document.issues_eq_nil_iff_of_undated`** — the verdict on the whole document.
-/

namespace DecoderForge

open SchemaReading

/-! ## Whole floats -/

namespace Json

mutual

/-- Whether a value has a float in it that is a whole number. -/
def hasWholeFloat : Json → Bool
  | .num (.float x) => x.isWhole
  | .arr items => wholeFloatInItems items
  | .obj members => wholeFloatInMembers members
  | _ => false

/-- Whether some item has. -/
def wholeFloatInItems : List Json → Bool
  | [] => false
  | v :: rest => hasWholeFloat v || wholeFloatInItems rest

/-- Whether some member has. -/
def wholeFloatInMembers : List (String × Json) → Bool
  | [] => false
  | (_, v) :: rest => hasWholeFloat v || wholeFloatInMembers rest

end

theorem wholeFloatInItems_of_mem {v : Json} (h : v.hasWholeFloat = true) :
    ∀ {items : List Json}, v ∈ items → wholeFloatInItems items = true
  | w :: rest, hv => by
      rw [wholeFloatInItems, Bool.or_eq_true]
      rcases List.mem_cons.mp hv with rfl | hv
      · exact Or.inl h
      · exact Or.inr (wholeFloatInItems_of_mem h hv)

theorem wholeFloatInMembers_of_mem {m : String × Json} (h : m.2.hasWholeFloat = true) :
    ∀ {members : Members}, m ∈ members → wholeFloatInMembers members = true
  | (k, w) :: rest, hm => by
      rw [wholeFloatInMembers, Bool.or_eq_true]
      rcases List.mem_cons.mp hm with rfl | hm
      · exact Or.inl h
      · exact Or.inr (wholeFloatInMembers_of_mem h hm)

end Json

/-! ## Types -/

namespace TypeName

/-- Only whether a float can be an integer depends on the draft. -/
theorem admits_congr {a b : Draft} {t : TypeName} {w : Json}
    (h : t ≠ .integer ∨ (a == .draft4) = (b == .draft4) ∨ w.hasWholeFloat = false) : t.admits a w = t.admits b w := by
  cases t with
  | integer =>
      cases w with
      | num n =>
          cases n with
          | int n => rfl
          | float x =>
              rcases h with h | h | h
              · exact absurd rfl h
              · simp only [admits, bne, h]
              · simp only [admits, show x.isWhole = false from h, Bool.and_false]
      | null | bool _ | str _ | arr _ | obj _ => rfl
  | array | boolean | null | number | object | string => cases w <;> rfl

end TypeName

namespace SchemaReading

/-- The types that the value of `type` names. -/
def typeNames : Json → Except String (List TypeName)
  | .str word =>
    match TypeName.ofWord? word with
    | some t => .ok [t]
    | none => .error schemaFault
  | .arr items => items.mapM typeName
  | v => .error (Assertion.typesFault v [.array, .string])

theorem readType_eq (draft : Draft) (v : Json) :
    readType draft v = (typeNames v).map fun names => .assert (.type draft names) := by
  unfold readType typeNames
  cases v with
  | str word =>
      dsimp only
      cases TypeName.ofWord? word <;> rfl
  | arr items => rfl
  | null | bool _ | num _ | obj _ => rfl

theorem faults_type_eq_nil_iff {draft : Draft} {names : List TypeName} {w : Json} :
    (Assertion.type draft names).faults w = [] ↔ (names.any fun t => t.admits draft w) = true := by
  have hcheck : ∀ (c : Bool) (fault : String), Assertion.check c fault = [] ↔ c = true := by
    intro c fault
    cases c <;> simp [Assertion.check]
  match names with
  | [] => simp [Assertion.faults, hcheck]
  | [t] => simp [Assertion.faults, hcheck]
  | t :: u :: rest => simp [Assertion.faults, hcheck]

/-- Whether types have integers among them and not all numbers. -/
def isIntegral (names : List TypeName) : Bool := names.contains .integer && !names.contains .number

/-- **Types admit the same values in two drafts**, unless integers among them meet a whole float. -/
theorem any_admits_congr {a b : Draft} {names : List TypeName} {w : Json}
    (h : isIntegral names = true → (a == .draft4) = (b == .draft4) ∨ w.hasWholeFloat = false) :
    (names.any fun t => t.admits a w) = names.any fun t => t.admits b w := by
  by_cases hsame : (a == .draft4) = (b == .draft4) ∨ w.hasWholeFloat = false
  · simp only [TypeName.admits_congr (Or.inr hsame)]
  · have hother : ¬ isIntegral names = true := fun hintegral => hsame (h hintegral)
    by_cases hnumber : .number ∈ names
    · -- numbers are all admitted, and no draft says what else is
      cases w with
      | num n =>
          have hany : ∀ draft, (names.any fun t => t.admits draft (.num n)) = true := fun draft =>
            List.any_eq_true.mpr ⟨.number, hnumber, rfl⟩
          rw [hany, hany]
      | null | bool _ | str _ | arr _ | obj _ =>
          congr 1
          funext t
          cases t <;> rfl
    · have hinteger : .integer ∉ names := fun hinteger => hother (by simp [isIntegral, hinteger, hnumber])
      rw [Bool.eq_iff_iff, List.any_eq_true, List.any_eq_true]
      refine exists_congr fun t => and_congr_right fun ht => ?_
      rw [TypeName.admits_congr (Or.inl fun heq => hinteger (heq ▸ ht))]

/-! ## Keywords -/

/-- Whether two drafts may differ on a keyword with its value, when a value is held to it: one of them does not know
the keyword or the format, or the value has a whole float and integers are asked for. -/
def isDated (a b : Draft) (formats : Bool) (v : Json) (keyword : String) (x : Json) : Bool :=
  isKeywordOf a keyword != isKeywordOf b keyword
    || match keyword, x with
      | "type", x =>
        ((a == .draft4) != (b == .draft4)) && v.hasWholeFloat
          && match typeNames x with
            | .ok names => isIntegral names
            | .error _ => false
      | "format", .str name => formats && Format.ofName? a name != Format.ofName? b name
      | _, _ => false

end SchemaReading

/-! ## Schemas that are read -/

namespace Document

/-- The schemas of a document that a validator may come to, each with the URL around it. -/
inductive Reads (d : Document) : Url → Json → Prop where
  | root : Reads d d.scope d.root
  | part {scope inner : Url} {members : Json.Members} {m : String × Json} {part : Json}
      (h : Reads d scope (.obj members)) (henter : enter d.draft scope (.obj members) = .ok inner)
      (hnone : members.get? "$ref" = none) (hmem : m ∈ members) (hpart : SchemaPlace.Holds m.1 m.2 part) :
      Reads d inner part
  | reference {scope inner url target : Url} {members : Json.Members} {r : String} {t : Json}
      (h : Reads d scope (.obj members)) (henter : enter d.draft scope (.obj members) = .ok inner)
      (hget : members.get? "$ref" = some (.str r)) (hurl : inner.join r = .ok url)
      (hresolve : d.resolve url = .ok (target, t)) : Reads d target t

theorem Reads.inRoot {d : Document} (hclosed : d.Closed) {scope : Url} {t : Json} (h : d.Reads scope t) : d.InRoot t := by
  induction h with
  | root => exact Or.inl rfl
  | part _ _ _ hmem hpart ih => exact ih.inside (SchemaPlace.inside_of_mem hmem hpart.2)
  | reference _ _ _ _ hresolve _ => exact inRoot_of_resolve hclosed hresolve

/-- Another draft sees the same identifiers in a document, and no keyword that is read depends on which of the two
drafts is meant, when a value is held to it. -/
structure Undated (d : Document) (b : Draft) (formats : Bool) (v : Json) : Prop where
  identifiers : d.draft.IdentifyAlike b d.root
  keywords : ∀ scope members, d.Reads scope (.obj members) → Json.Members.get? members "$ref" = none →
    ∀ m ∈ members, isDated d.draft b formats v m.1 m.2 = false

/-- **A document without dated words**: no text in it is an identifier's key, or a keyword that only one of the
drafts knows, or asks for a format.  Drafts do not differ in it on a value without whole floats. -/
theorem undated_of_texts {d : Document} {b : Draft} {formats : Bool} {v : Json} (hclosed : d.Closed)
    (hid : d.draft.idKey ∉ d.root.texts) (hid' : b.idKey ∉ d.root.texts)
    (hknown : ∀ k ∈ d.root.texts, isKeywordOf d.draft k = isKeywordOf b k)
    (hformat : formats = true → "format" ∉ d.root.texts) (hv : v.hasWholeFloat = false) : d.Undated b formats v := by
  have htexts : ∀ {x}, d.InRoot x → x.texts ⊆ d.root.texts := by
    rintro x (rfl | hinside)
    · exact List.Subset.refl _
    · exact hinside.texts_subset
  refine ⟨fun x hx => ?_, fun scope members hreads _ m hm => ?_⟩
  · rw [schemaId?_of_notMem fun hmem => hid (htexts hx hmem), schemaId?_of_notMem fun hmem => hid' (htexts hx hmem)]
  · have hkeyword : m.1 ∈ d.root.texts :=
      htexts (hreads.inRoot hclosed) (Json.texts_subset_members (k := m.1) hm List.mem_cons_self)
    unfold isDated
    rw [hknown _ hkeyword, bne_self_eq_false, Bool.false_or]
    split
    · rw [hv, Bool.and_false, Bool.false_and]
    · next hname _ =>
      cases formats with
      | false => rfl
      | true => exact absurd (hname ▸ hkeyword) (hformat rfl)
    · rfl

/-- How two drafts are compared on a value: on what has no whole float if the value has none, and by the URLs of
schemas that are read. -/
def dated (d : Document) (v : Json) : Constraint.Matching where
  asked _ w := w.hasWholeFloat = true → v.hasWholeFloat = true
  item h hw := fun hwhole => h (by rw [Json.hasWholeFloat]; exact Json.wholeFloatInItems_of_mem hwhole hw)
  member h hm := fun hwhole => h (by rw [Json.hasWholeFloat]; exact Json.wholeFloatInMembers_of_mem hwhole hm)
  name _ name := fun hwhole => absurd hwhole (by simp [Json.hasWholeFloat])
  reference _ url url' := url = url' ∧ ∀ scope t, d.resolve url = .ok (scope, t) → d.Reads scope t

variable {d : Document} {b : Draft} {formats : Bool} {v : Json}

theorem dialectsAlike_of_isDated {keyword : String} {x : Json}
    (h : isDated d.draft b formats v keyword x = false) (same : Bool) :
    DialectsAlike (d.dated v) same ⟨d.draft, formats⟩ ⟨b, formats⟩ keyword x := by
  unfold isDated at h
  rw [Bool.or_eq_false_iff] at h
  obtain ⟨hknown, hvalue⟩ := h
  refine ⟨by simpa using hknown, ?_, ?_⟩
  · rintro rfl
    rw [readType_eq, readType_eq]
    cases hnames : typeNames x with
    | error e => exact .error e
    | ok names =>
        refine .ok (.assert fun w hw => ?_)
        rw [faults_type_eq_nil_iff, faults_type_eq_nil_iff, any_admits_congr fun hintegral => ?_]
        simp only [hnames, hintegral, Bool.and_true] at hvalue
        by_cases hsame : (d.draft == .draft4) = (b == .draft4)
        · exact Or.inl hsame
        -- the value has no whole float, so neither has what is in it
        · have hv : v.hasWholeFloat = false := by simpa [hsame] using hvalue
          exact Or.inr (Bool.eq_false_iff.mpr fun hwhole => absurd (hw hwhole) (by simp [hv]))
  · rintro rfl
    unfold readFormat
    cases formats with
    | false => exact any_alike
    | true =>
        cases x with
        | str name =>
            have hname : Format.ofName? d.draft name = Format.ofName? b name := by simpa using hvalue
            simp only [Bool.not_true, Bool.false_eq_true, if_false, hname]
            cases Format.ofName? b name with
            | none => exact any_alike
            | some f => exact assert_alike _
        | null | bool _ | num _ | arr _ | obj _ => exact .error _

/-- **A schema that is read is read alike** by two drafts that do not differ. -/
theorem ofSchema_alike (hclosed : d.Closed) (h : d.Undated b formats v) (t : Json) {scope : Url}
    (hreads : d.Reads scope t) (same : Bool) :
    ReadAlike (Constraint.Alike (d.dated v) same) (Constraint.ofSchema ⟨d.draft, formats⟩ scope t)
      (Constraint.ofSchema ⟨b, formats⟩ scope t) := by
  -- on the schemas inside; what a reference leads to is not read here, only its URL is compared
  induction t using Json.inside_induction generalizing scope same with
  | _ t ih =>
  cases t with
  | bool x =>
      cases x with
      | true =>
          rw [Constraint.ofSchema, Constraint.ofSchema]
          exact any_alike
      | false =>
          rw [Constraint.ofSchema, Constraint.ofSchema]
          exact .ok .never
  | obj members =>
      have hid := identifyAlike_of_inRoot h.identifiers (hreads.inRoot hclosed) _ (Or.inl rfl)
      rw [Constraint.ofSchema_obj, Constraint.ofSchema_obj, ← enter_congr hid scope]
      cases henter : enter d.draft scope (.obj members) with
      | error f => exact .error _
      | ok inner =>
          dsimp only
          cases href : Json.Members.get? members "$ref" with
          | some target =>
              cases target with
              | str r =>
                  dsimp only
                  cases hurl : inner.join r with
                  | error f => exact .error _
                  | ok url =>
                      exact .ok (.reference ⟨rfl, fun _ _ hresolve => .reference hreads henter href hurl hresolve⟩)
              | null | bool _ | num _ | arr _ | obj _ => exact .error _
          | none =>
              refine readMembers_alike (fun m hm => ?_) fun m hm part hpart => ?_
              · exact dialectsAlike_of_isDated (h.keywords scope members hreads href m hm) same
              · exact ih part (SchemaPlace.inside_of_mem hm hpart.2) (.part hreads henter href hm hpart) _
  | null | num _ | str _ | arr _ =>
      rw [Constraint.ofSchema.eq_def, Constraint.ofSchema.eq_def]
      exact .error _

/-- **A reference finds the same faults** under two drafts that do not differ, however many more may be followed. -/
theorem issuesAt_alike (hclosed : d.Closed) (h : d.Undated b formats v) (n : Nat) :
    Constraint.AgreeUnder (d.dated v) (d.issuesAt ⟨d.draft, formats⟩ n)
      ({ d with draft := b }.issuesAt ⟨b, formats⟩ n) := by
  -- the references inside the schema that is found have one step less
  induction n with
  | zero => simp [Constraint.AgreeUnder, issuesAt]
  | succ n ih =>
      rintro same url _ ⟨rfl, hreads⟩ w path hw
      rw [issuesAt, issuesAt, resolve_congr hclosed h.identifiers]
      cases hresolve : d.resolve url with
      | error f => simp
      | ok found =>
          obtain ⟨scope, t⟩ := found
          have halike := ofSchema_alike hclosed h t (hreads scope t hresolve) same
          dsimp only
          generalize Constraint.ofSchema ⟨d.draft, formats⟩ scope t = x,
            Constraint.ofSchema ⟨b, formats⟩ scope t = y at halike ⊢
          cases halike with
          | error e => simp
          | ok hc => exact Constraint.agree_of_alike ih hc w path hw

/-- **Two drafts that do not differ give the same verdict** on what the whole document demands. -/
theorem issues_eq_nil_iff_of_undated (hclosed : d.Closed) (h : d.Undated b formats v) {c c' : Constraint}
    (hc : Constraint.ofSchema ⟨d.draft, formats⟩ d.scope d.root = .ok c)
    (hc' : Constraint.ofSchema ⟨b, formats⟩ d.scope d.root = .ok c') :
    d.issues ⟨d.draft, formats⟩ c v = [] ↔ { d with draft := b }.issues ⟨b, formats⟩ c' v = [] := by
  have halike := ofSchema_alike hclosed h d.root .root true
  rw [hc, hc'] at halike
  cases halike with
  | ok hcs => exact Constraint.agree_of_alike (issuesAt_alike hclosed h _) hcs v "" id

end Document

end DecoderForge
