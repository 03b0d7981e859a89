import DecoderForge.Proofs.Validation.KeywordsAlike

/-!
# DecoderForge — schemas in the values of keywords

What holds schemas is read schema by schema, in whatever way each of them is read.  Two readings of an object are
alike where they are alike on every schema in it and their dialects do not differ on its keywords.

## The architecture

* **`SchemaPlace.Holds`** — a schema in the value of a keyword.
* **`SchemaReading.readMembers`** — the keywords of an object, with a function that reads the schemas in it.
* **`Constraint.ofSchema_obj`** — the engine's reading of an object in these terms.
* **`SchemaReading.readMembers_alike`** — two readings of an object.
-/

namespace DecoderForge

open SchemaReading

/-- A schema in a value that holds schemas in some way. -/
def SchemaPlace.HoldsIn (v part : Json) : SchemaPlace → Prop
  | .nowhere => False
  | .whole => part = v
  | .items => ∃ vs, v = .arr vs ∧ part ∈ vs
  | .wholeOrItems => part = v ∨ ∃ vs, v = .arr vs ∧ part ∈ vs
  | .members | .membersOrNames => ∃ ms name, v = .obj ms ∧ (name, part) ∈ ms

/-- A schema in the value of a keyword, as far as constraints are made from it. -/
def SchemaPlace.Holds (keyword : String) (v part : Json) : Prop :=
  keyword ≠ definitionsKey ∧ (SchemaPlace.ofKeyword keyword).HoldsIn v part

/-- A schema in the value of a keyword is this value or inside it. -/
theorem SchemaPlace.inside_of_holdsIn {place : SchemaPlace} {v part : Json} (h : place.HoldsIn v part) :
    part = v ∨ part.Inside v := by
  cases place with
  | nowhere => exact h.elim
  | whole => exact Or.inl h
  | items =>
      obtain ⟨vs, rfl, hmem⟩ := h
      exact Or.inr (.item hmem)
  | wholeOrItems =>
      rcases h with h | ⟨vs, rfl, hmem⟩
      · exact Or.inl h
      · exact Or.inr (.item hmem)
  | members | membersOrNames =>
      obtain ⟨ms, name, rfl, hmem⟩ := h
      exact Or.inr (.member hmem)

theorem SchemaPlace.inside_of_mem {place : SchemaPlace} {members : Json.Members} {m : String × Json} {part : Json}
    (hmem : m ∈ members) (h : place.HoldsIn m.2 part) : part.Inside (.obj members) := by
  rcases inside_of_holdsIn h with rfl | hinside
  · exact .member hmem
  · exact hinside.trans (.member hmem)

/-! ## Parts -/

/-- The schemas in a value that holds schemas in some way, each read by a function. -/
def SchemaPlace.partWith (read : Json → Read) (v : Json) (place : SchemaPlace) : Part :=
  match place, v with
  | .whole, v => .one (read v)
  | .items, .arr vs => .many (vs.map read)
  | .wholeOrItems, .arr vs => .many (vs.map read)
  | .wholeOrItems, v => .one (read v)
  | .members, .obj ms => .named (ms.map fun m => (m.1, read m.2))
  | .membersOrNames, .obj ms => .named (ms.map fun m => (m.1, read m.2))
  | _, _ => .none

theorem SchemaPlace.partWith_alike {R : Constraint.Matching} {same : Bool} {f g : Json → Read} {v : Json}
    {place : SchemaPlace} (h : ∀ part, place.HoldsIn v part → ReadAlike (Constraint.Alike R same) (f part) (g part)) :
    PartAlike R same (place.partWith f v) (place.partWith g v) := by
  -- the two ways to hold items, and the two ways to hold members, are each read in one way
  have hitems : ∀ vs : List Json, (∀ w ∈ vs, place.HoldsIn v w) → PartAlike R same (.many (vs.map f)) (.many (vs.map g)) := by
    refine fun vs hvs => .many (List.forall₂_map_left_iff.mpr (List.forall₂_map_right_iff.mpr ?_))
    exact List.forall₂_same.mpr fun w hw => h w (hvs w hw)
  have hmembers : ∀ ms : Json.Members, (∀ m ∈ ms, place.HoldsIn v m.2) →
      PartAlike R same (.named (ms.map fun m => (m.1, f m.2))) (.named (ms.map fun m => (m.1, g m.2))) := by
    refine fun ms hms => .named (List.forall₂_map_left_iff.mpr (List.forall₂_map_right_iff.mpr ?_))
    exact List.forall₂_same.mpr fun m hm => ⟨rfl, h m.2 (hms m hm)⟩
  cases place with
  | nowhere => exact .none
  | whole => exact .one (h v rfl)
  | items =>
      cases v with
      | arr vs => exact hitems vs fun w hw => ⟨vs, rfl, hw⟩
      | null | bool _ | num _ | str _ | obj _ => exact .none
  | wholeOrItems =>
      cases v with
      | arr vs => exact hitems vs fun w hw => Or.inr ⟨vs, rfl, hw⟩
      | null | bool _ | num _ | str _ | obj _ => exact .one (h _ (Or.inl rfl))
  | members | membersOrNames =>
      cases v with
      | obj ms => exact hmembers ms fun m hm => ⟨ms, m.1, rfl, hm⟩
      | null | bool _ | num _ | str _ | arr _ => exact .none

theorem SchemaPlace.partWith_congr {f g : Json → Read} {v : Json} {place : SchemaPlace}
    (h : ∀ part, place.HoldsIn v part → f part = g part) : place.partWith f v = place.partWith g v := by
  have hitems : ∀ vs : List Json, (∀ w ∈ vs, place.HoldsIn v w) → vs.map f = vs.map g :=
    fun vs hvs => List.map_congr_left fun w hw => h w (hvs w hw)
  have hmembers : ∀ ms : Json.Members, (∀ m ∈ ms, place.HoldsIn v m.2) →
      (ms.map fun m => (m.1, f m.2)) = ms.map fun m => (m.1, g m.2) :=
    fun ms hms => List.map_congr_left fun m hm => by rw [h m.2 (hms m hm)]
  cases place with
  | nowhere => rfl
  | whole => exact congrArg Part.one (h v rfl)
  | items =>
      cases v with
      | arr vs => exact congrArg Part.many (hitems vs fun w hw => ⟨vs, rfl, hw⟩)
      | null | bool _ | num _ | str _ | obj _ => rfl
  | wholeOrItems =>
      cases v with
      | arr vs => exact congrArg Part.many (hitems vs fun w hw => Or.inr ⟨vs, rfl, hw⟩)
      | null | bool _ | num _ | str _ | obj _ => exact congrArg Part.one (h _ (Or.inl rfl))
  | members | membersOrNames =>
      cases v with
      | obj ms => exact congrArg Part.named (hmembers ms fun m hm => ⟨ms, m.1, rfl, hm⟩)
      | null | bool _ | num _ | str _ | arr _ => rfl

namespace SchemaReading

/-- The schemas in the values of keywords, each read by a function. -/
def partsWith (read : Json → Read) (members : Json.Members) : List (String × Part) :=
  members.map fun m => (m.1, (SchemaPlace.ofKeyword m.1).partWith read m.2)

/-- The keywords of an object as a constraint, with a function that reads the schemas in it. -/
def readMembers (d : Dialect) (read : Json → Read) (members : Json.Members) : Read :=
  (members.mapM fun m => readKeyword ⟨d, members, partsWith read members⟩ m.1 m.2).map .all

theorem readMembers_congr {d : Dialect} {f g : Json → Read} {members : Json.Members}
    (h : ∀ part, part.Inside (.obj members) → f part = g part) : readMembers d f members = readMembers d g members := by
  have hparts : partsWith f members = partsWith g members := by
    refine List.map_congr_left fun m hm => congrArg (Prod.mk m.1) ?_
    exact SchemaPlace.partWith_congr fun part hpart => h part (SchemaPlace.inside_of_mem hm hpart)
  unfold readMembers
  rw [hparts]

end SchemaReading

/-! ## The engine's reading -/

namespace Constraint

variable (d : Dialect) (scope : Url)

theorem ofSchemas_eq_map (vs : List Json) : ofSchemas d scope vs = vs.map (ofSchema d scope) := by
  induction vs with
  | nil => rw [ofSchemas, List.map_nil]
  | cons v rest ih => rw [ofSchemas, ih, List.map_cons]

theorem ofMembers_eq_map (ms : Json.Members) :
    ofMembers d scope ms = ms.map fun m => (m.1, ofSchema d scope m.2) := by
  induction ms with
  | nil => rw [ofMembers, List.map_nil]
  | cons m rest ih => rw [ofMembers, ih, List.map_cons]

theorem partsOf_eq_partsWith (members : Json.Members) :
    partsOf d scope members = partsWith (ofSchema d scope) members := by
  induction members with
  | nil => rw [partsOf, partsWith, List.map_nil]
  | cons m rest ih =>
      rw [partsOf.eq_def]
      simp only [ih, ofSchemas_eq_map, ofMembers_eq_map]
      rfl

/-- **An object is a reference**, or what its keywords demand, with the URL inside it. -/
theorem ofSchema_obj (members : Json.Members) : ofSchema d scope (.obj members)
    = match Document.enter d.draft scope (.obj members) with
      | .error f => .error f.message
      | .ok inner =>
        match Json.Members.get? members "$ref" with
        | some (.str target) =>
          match inner.join target with
          | .ok url => .ok (.reference url)
          | .error f => .error f.message
        | some v => .error (typeFault v .string)
        | none => readMembers d (ofSchema d inner) members := by
  rw [ofSchema]
  simp only [partsOf_eq_partsWith]
  rfl

end Constraint

/-! ## Two readings of an object -/

namespace SchemaReading

open Constraint (Alike)

variable {R : Constraint.Matching} {same : Bool} {d e : Dialect} {f g : Json → Read} {members : Json.Members}

/-- Values under the same keys correspond where they are looked up. -/
theorem lookup_alike {P : String → Part → Part → Prop} {key : String} :
    ∀ {ps qs : List (String × Part)}, List.Forall₂ (fun p q => p.1 = q.1 ∧ P p.1 p.2 q.2) ps qs →
      (ps.lookup key = none ∧ qs.lookup key = none)
        ∨ ∃ p q, ps.lookup key = some p ∧ qs.lookup key = some q ∧ P key p q
  | [], [], .nil => Or.inl ⟨rfl, rfl⟩
  | (k, p) :: _, (_, q) :: _, .cons hfirst hrest => by
      obtain ⟨rfl, h⟩ := hfirst
      rw [List.lookup_cons, List.lookup_cons]
      cases hkey : key == k with
      | true =>
          obtain rfl := eq_of_beq hkey
          exact Or.inr ⟨p, q, rfl, rfl, h⟩
      | false => exact lookup_alike hrest

/-- The flag beside a limit counts in both dialects or in neither: one that does not differ on the flag is no
keyword of draft 4 alone. -/
theorem isExclusive_eq {keyword : String} (hkeyword : keyword ∈ ["exclusiveMinimum", "exclusiveMaximum"])
    (hknown : ∀ m ∈ members, isKeywordOf d.draft m.1 = isKeywordOf e.draft m.1) {ps qs : List (String × Part)} :
    isExclusive ⟨d, members, ps⟩ keyword = isExclusive ⟨e, members, qs⟩ keyword := by
  unfold isExclusive Surroundings.get?
  cases hget : Json.Members.get? members keyword with
  | none => simp
  | some x =>
      have hsame := hknown _ (Json.mem_of_get? hget)
      have hdraft : (d.draft == .draft4) = (e.draft == .draft4) := by
        simp only [List.mem_cons, List.not_mem_nil, or_false] at hkeyword
        rcases hkeyword with rfl | rfl <;> simpa [isKeywordOf, bne] using hsame
      rw [hdraft]

/-- **Two readings of an object are alike** where they are alike on the schemas in it and the dialects do not
differ on its keywords. -/
theorem readMembers_alike (hdialects : ∀ m ∈ members, DialectsAlike R same d e m.1 m.2)
    (hparts : ∀ m ∈ members, ∀ part, SchemaPlace.Holds m.1 m.2 part →
      ReadAlike (Alike R (same && isAboutWhole m.1)) (f part) (g part)) :
    ReadAlike (Alike R same) (readMembers d f members) (readMembers e g members) := by
  -- the schemas of all keywords first, as a keyword is read with its neighbours
  have hall : List.Forall₂ (fun p q => p.1 = q.1
      ∧ (p.1 ≠ definitionsKey → PartAlike R (same && isAboutWhole p.1) p.2 q.2))
      (partsWith f members) (partsWith g members) := by
    refine List.forall₂_map_left_iff.mpr (List.forall₂_map_right_iff.mpr ?_)
    refine List.forall₂_same.mpr fun m hm => ⟨rfl, fun hcounts => ?_⟩
    exact SchemaPlace.partWith_alike fun part hpart => hparts m hm part ⟨hcounts, hpart⟩
  have hsurroundings : SurroundingsAlike R same ⟨d, members, partsWith f members⟩ ⟨e, members, partsWith g members⟩ := by
    refine ⟨rfl, fun _ hkeyword => isExclusive_eq hkeyword fun m hm => (hdialects m hm).known, fun keyword hcounts => ?_⟩
    unfold Surroundings.part
    rcases lookup_alike (P := fun keyword p q => keyword ≠ definitionsKey →
      PartAlike R (same && isAboutWhole keyword) p q) hall with ⟨hp, hq⟩ | ⟨p, q, hp, hq, hpq⟩
    · rw [hp, hq]
      exact .none
    · rw [hp, hq]
      exact hpq hcounts
  have hkeywords : ReadAlike (List.Forall₂ (Alike R same)) _ _ :=
    .mapM (List.forall₂_same.mpr fun m (hm : m ∈ members) => readKeyword_alike hsurroundings (hdialects m hm))
  exact hkeywords.map fun _ _ hconstraints => .all (allAlike_of_forall₂ hconstraints)

end SchemaReading

end DecoderForge
