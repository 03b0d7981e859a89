import DecoderForge.Proofs.Validation.Parts

/-!
# DecoderForge — schemas read with other names for their references

A schema is read the same way whatever URLs its references get.  Here the URLs come from a function;
two functions make constraints that are alike, and where no identifier counts the engine's own reading is
the one whose function joins a reference to the URL around the schema.

## The architecture

* **`Constraint.readBy`** — a schema read with a function that names its references.
* **`Json.Asks`** — the references that count in a schema, about the value itself or values inside it.
* **`Constraint.readBy_alike`** — a schema whose references are named together is read alike.
* **`Constraint.ofSchema_eq_readBy`** — the engine's reading where no identifier counts.
-/

namespace DecoderForge

open SchemaReading

/-! ## Reading -/

namespace Constraint

mutual

/-- A schema as a constraint in which a function names the references; identifiers do not count. -/
def readBy (d : Dialect) (name : String → Except Url.Fault Url) : Json → Read
  | .bool true => .ok .any
  | .bool false => .ok .never
  | .obj members =>
    match Json.Members.get? members "$ref" with
    | some (.str target) =>
      match name target with
      | .ok url => .ok (.reference url)
      | .error f => .error f.message
    | some v => .error (typeFault v .string)
    | none =>
      let s : Surroundings := ⟨d, members, partsBy d name members⟩
      (members.mapM fun (keyword, v) => readKeyword s keyword v).map .all
  | v => .error (Assertion.typesFault v [.boolean, .object])

/-- The schemas in the values of keywords. -/
def partsBy (d : Dialect) (name : String → Except Url.Fault Url) : List (String × Json) → List (String × Part)
  | [] => []
  | (keyword, v) :: rest =>
    let part := match SchemaPlace.ofKeyword keyword, v with
      | .whole, v => .one (readBy d name v)
      | .items, .arr vs => .many (schemasBy d name vs)
      | .wholeOrItems, .arr vs => .many (schemasBy d name vs)
      | .wholeOrItems, v => .one (readBy d name v)
      | .members, .obj members => .named (membersBy d name members)
      | .membersOrNames, .obj members => .named (membersBy d name members)
      | _, _ => .none
    (keyword, part) :: partsBy d name rest

/-- Each item read as a schema. -/
def schemasBy (d : Dialect) (name : String → Except Url.Fault Url) : List Json → List Read
  | [] => []
  | v :: rest => readBy d name v :: schemasBy d name rest

/-- Each member read as a schema. -/
def membersBy (d : Dialect) (name : String → Except Url.Fault Url) :
    List (String × Json) → List (String × Read)
  | [] => []
  | (k, v) :: rest => (k, readBy d name v) :: membersBy d name rest

end

end Constraint

/-! ## References that count -/

/-- The references that count in a schema.  The flag says whether one is about the very value that the schema
is about, and not about a value inside it. -/
inductive Json.Asks : (same : Bool) → Json → String → Prop where
  | reference {members : Json.Members} {r : String} (h : members.get? "$ref" = some (.str r)) :
      Asks true (.obj members) r
  | part {members : Json.Members} {keyword : String} {v part : Json} {same : Bool} {r : String}
      (hnone : members.get? "$ref" = none) (hmem : (keyword, v) ∈ members)
      (hpart : SchemaPlace.Holds keyword v part) (h : Asks same part r) :
      Asks (same && isAboutWhole keyword) (.obj members) r

/-- A reference that counts in an object stands in its place, or counts in a schema in it. -/
theorem Json.Asks.of_obj {same : Bool} {members : Json.Members} {r : String} (h : (Json.obj members).Asks same r) :
    members.get? "$ref" = some (.str r) ∧ same = true
      ∨ members.get? "$ref" = none ∧ ∃ keyword v part same', (keyword, v) ∈ members
        ∧ SchemaPlace.Holds keyword v part ∧ part.Asks same' r ∧ same = (same' && isAboutWhole keyword) := by
  cases h with
  | reference h => exact Or.inl ⟨h, rfl⟩
  | part hnone hmem hpart h => exact Or.inr ⟨hnone, _, _, _, _, hmem, hpart, h, rfl⟩

/-- In the place of a reference nothing else counts. -/
theorem Json.Asks.of_reference {same : Bool} {members : Json.Members} {r r' : String}
    (hget : members.get? "$ref" = some (.str r)) (h : (Json.obj members).Asks same r') : r' = r := by
  rcases h.of_obj with ⟨href, -⟩ | ⟨hnone, -⟩
  · exact Json.str.inj (Option.some.inj (href.symm.trans hget))
  · exact absurd (hget.symm.trans hnone) (by simp)

/-- A reference that counts is written in the schema. -/
theorem Json.Asks.mem_references {same : Bool} {t : Json} {r : String} (h : t.Asks same r) : r ∈ t.references := by
  induction h with
  | reference h =>
      rw [references]
      exact mem_referencesOfMembers (mem_of_get? h)
  | part _ hmem hpart _ ih => exact (SchemaPlace.inside_of_mem hmem hpart.2).references_subset ih

namespace Constraint

/-- Two functions name a reference with URLs that correspond. -/
def NamedTogether (R : Matching) (name name' : String → Except Url.Fault Url) (same : Bool) (r : String) : Prop :=
  ∃ url url', name r = .ok url ∧ name' r = .ok url' ∧ R.reference same url url'

variable {d : Dialect} {name name' : String → Except Url.Fault Url} {R : Matching}

theorem schemasBy_eq_map (vs : List Json) : schemasBy d name vs = vs.map (readBy d name) := by
  induction vs with
  | nil => rw [schemasBy, List.map_nil]
  | cons v rest ih => rw [schemasBy, ih, List.map_cons]

theorem membersBy_eq_map (ms : Json.Members) : membersBy d name ms = ms.map fun m => (m.1, readBy d name m.2) := by
  induction ms with
  | nil => rw [membersBy, List.map_nil]
  | cons m rest ih => rw [membersBy, ih, List.map_cons]

theorem partsBy_eq_partsWith (members : Json.Members) :
    partsBy d name members = partsWith (readBy d name) members := by
  induction members with
  | nil => rw [partsBy, partsWith, List.map_nil]
  | cons m rest ih =>
      rw [partsBy.eq_def]
      simp only [ih, schemasBy_eq_map, membersBy_eq_map]
      rfl

/-- **An object is a reference**, or what its keywords demand. -/
theorem readBy_obj (members : Json.Members) : readBy d name (.obj members)
    = match Json.Members.get? members "$ref" with
      | some (.str target) =>
        match name target with
        | .ok url => .ok (.reference url)
        | .error f => .error f.message
      | some v => .error (typeFault v .string)
      | none => readMembers d (readBy d name) members := by
  rw [readBy]
  simp only [partsBy_eq_partsWith]
  rfl

/-- A schema in the value of a keyword asks for what the schema around it asks for. -/
theorem namedTogether_part {same : Bool} {members : Json.Members} {keyword : String} {v part : Json}
    (h : ∀ same' r, (Json.obj members).Asks same' r → NamedTogether R name name' (same && same') r)
    (hnone : members.get? "$ref" = none) (hmem : (keyword, v) ∈ members)
    (hpart : SchemaPlace.Holds keyword v part) :
    ∀ same' r, part.Asks same' r → NamedTogether R name name' (same && isAboutWhole keyword && same') r := by
  intro same' r hasks
  have hnamed := h _ r (.part hnone hmem hpart hasks)
  rwa [Bool.and_comm same', ← Bool.and_assoc] at hnamed

/-- **A schema is read alike** where the references that count in it are named together. -/
theorem readBy_alike (t : Json) {same : Bool}
    (h : ∀ same' r, t.Asks same' r → NamedTogether R name name' (same && same') r) :
    ReadAlike (Alike R same) (readBy d name t) (readBy d name' t) := by
  induction t using Json.inside_induction generalizing same with
  | _ t ih =>
  cases t with
  | bool b =>
      cases b with
      | true =>
          rw [readBy, readBy]
          exact any_alike
      | false =>
          rw [readBy, readBy]
          exact .ok .never
  | obj members =>
      rw [readBy_obj, readBy_obj]
      cases href : Json.Members.get? members "$ref" with
      | some target =>
          cases target with
          | str r =>
              obtain ⟨url, url', hname, hname', hurls⟩ := h true r (.reference href)
              rw [Bool.and_true] at hurls
              simp only [hname, hname']
              exact .ok (.reference hurls)
          | null | bool _ | num _ | arr _ | obj _ => exact .error _
      | none =>
          refine readMembers_alike (fun m _ => .refl d m.1 m.2) fun m hm part hpart => ?_
          exact ih part (SchemaPlace.inside_of_mem hm hpart.2) (namedTogether_part h href hm hpart)
  | null | num _ | str _ | arr _ =>
      rw [readBy.eq_def, readBy.eq_def]
      exact .error _

/-! ## The engine's own reading -/

/-- The URL around a schema is also the URL inside it, and inside every schema in it. -/
def Unmoved (draft : Draft) (scope : Url) (t : Json) : Prop :=
  ∀ x, x = t ∨ x.Inside t → Document.enter draft scope x = .ok scope

section Unmoved

variable {scope : Url}

theorem Unmoved.inside {draft : Draft} {t u : Json} (h : Unmoved draft scope t) (hu : u.Inside t) :
    Unmoved draft scope u := by
  rintro x (rfl | hx)
  · exact h _ (Or.inr hu)
  · exact h x (Or.inr (hx.trans hu))

/-- **Where no identifier counts** the engine names each reference by joining it to the URL around. -/
theorem ofSchema_eq_readBy (t : Json) (h : Unmoved d.draft scope t) : ofSchema d scope t = readBy d scope.join t := by
  induction t using Json.inside_induction with
  | _ t ih =>
  cases t with
  | bool b => cases b <;> rw [ofSchema, readBy]
  | obj members =>
      have hparts : readMembers d (ofSchema d scope) members = readMembers d (readBy d scope.join) members :=
        readMembers_congr fun part hpart => ih part hpart (h.inside hpart)
      rewrite [ofSchema_obj, readBy_obj, h _ (Or.inl rfl), ← hparts]
      rfl
  | null | num _ | str _ | arr _ => rw [ofSchema.eq_def, readBy.eq_def]

end Unmoved

end Constraint

end DecoderForge
