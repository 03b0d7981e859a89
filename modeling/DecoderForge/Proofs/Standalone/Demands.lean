import DecoderForge.Proofs.Json.Printed
import DecoderForge.Proofs.Schema.Inside
import DecoderForge.Standalone.Keyword

/-!
# DecoderForge — what a function body demands

The body of a validator function demands functions for schemas inside its own schema and for references
that stand in it, and nothing else of the document.  This is what lets linking go down the schema and
follow its references.  The constants that it demands stand on one line each.

## The architecture

* **`Demand.IsPartOf`** — a demand that a schema accounts for.
* **`Piece.Within`** — a piece all of whose demands are such; kept by every way of putting pieces
  together.
* **`body_within`** — the body of a schema is within that schema.
-/

namespace DecoderForge.Standalone

/-- A demand for something inside a schema, for a reference that stands in it, or for a constant on one line. -/
def Demand.IsPartOf (schema : Json) : Demand → Prop
  | .function sub _ => sub.Inside schema
  | .reference r => r ∈ schema.references
  | .constant value => '\n' ∉ value.toList
  | .fault _ => True

/-! ## Putting pieces together -/

/-- A piece that demands parts of a schema only. -/
def Piece.Within (schema : Json) (p : Piece) : Prop := ∀ d ∈ p.demands, d.IsPartOf schema

namespace Piece

variable {schema : Json} {p q : Piece}

theorem within_empty : empty.Within schema := fun _ h => absurd h (by simp [empty])

theorem within_ofCalls (calls : List Layout.Call) : (ofCalls calls).Within schema :=
  fun _ h => absurd h (by simp [ofCalls])

theorem within_ofFault (f : Fault) : (ofFault f).Within schema := by
  intro d hd
  obtain rfl : d = .fault f := List.mem_singleton.mp hd
  exact trivial

theorem within_ask {d : Demand} {lines : Nat → List Layout.Call} (h : d.IsPartOf schema) :
    (ask d lines).Within schema := by
  intro e he
  obtain rfl : e = d := List.mem_singleton.mp he
  exact h

theorem within_append (hp : p.Within schema) (hq : q.Within schema) : (p.append q).Within schema := by
  intro d hd
  rcases List.mem_append.mp hd with hd | hd
  · exact hp d hd
  · exact hq d hd

theorem within_concat : ∀ {ps : List Piece}, (∀ p ∈ ps, p.Within schema) → (concat ps).Within schema
  | [], _ => within_empty
  | p :: _, h =>
      within_append (h p List.mem_cons_self)
        (within_concat fun q hq => h q (List.mem_cons_of_mem p hq))

theorem within_wrap {first last : String} (h : p.Within schema) :
    (wrap first last p).Within schema := h

theorem within_ite {c : Prop} [Decidable c] (hp : p.Within schema) (hq : q.Within schema) :
    (if c then p else q).Within schema := by
  split
  · exact hp
  · exact hq

/-- A step that may fail before the piece is made. -/
theorem within_bind {α : Type} {e : Except Fault α} {make : α → Except Fault Piece}
    (h : ∀ a, e = .ok a → (ofExcept (make a)).Within schema) :
    (ofExcept (e >>= make)).Within schema := by
  cases e with
  | ok a => exact h a rfl
  | error f => exact within_ofFault f

end Piece

/-! ## Keywords

Pieces without functions demand constants at most; the others ask for schemas that a keyword holds. -/

open Piece

variable (s : Site)

/-- The part under a keyword lies inside the schema. -/
theorem isPartOf_part {s : Site} {keyword : String} {v : Json} (h : s.get? keyword = some v)
    (path : String) : (s.part path v).IsPartOf (.obj s.members) :=
  Json.inside_of_get? h

/-- An item of a keyword that is a list lies inside the schema. -/
theorem isPartOf_item {s : Site} {keyword : String} {items : List Json} {v : Json}
    (h : s.get? keyword = some (.arr items)) (hv : v ∈ items) (path : String) :
    (s.part path v).IsPartOf (.obj s.members) :=
  .trans (.item hv) (Json.inside_of_get? h)

/-- A member of a keyword that has to be an object lies inside the schema. -/
theorem isPartOf_member {s : Site} {keyword : String} {members : Json.Members}
    (h : objectKeyword s keyword = .ok members) {m : String × Json} (hm : m ∈ members)
    (path : String) : (s.part path m.2).IsPartOf (.obj s.members) := by
  unfold objectKeyword at h
  cases hget : s.get? keyword with
  | none =>
      simp only [hget, Except.ok.injEq] at h
      subst h
      exact absurd hm (by simp)
  | some v =>
      cases v with
      | obj found =>
          simp only [hget, Except.ok.injEq] at h
          subst h
          exact .trans (.member hm) (Json.inside_of_get? hget)
      | null | bool _ | num _ | str _ | arr _ => simp [hget] at h

theorem isPartOf_patternConstant (schema : Json) (pattern : String) : (patternConstant pattern).IsPartOf schema := by
  show '\n' ∉ ("new RegExp(" ++ stringLiteral pattern ++ ")").toList
  rw [String.toList_append, String.toList_append]
  exact Json.newline_notMem_append
    (Json.newline_notMem_append (by decide) (Text.newline_notMem_quote pattern)) (by decide)

theorem typePiece_within : (typePiece s).Within (.obj s.members) := by
  unfold typePiece
  split
  · exact within_empty
  · refine within_bind fun names _ => ?_
    split
    · exact within_ofFault _
    · exact within_ofCalls _

theorem enumPiece_within : (enumPiece s).Within (.obj s.members) := by
  unfold enumPiece
  split
  · exact within_empty
  · exact within_ask (Json.newline_notMem_compact _)

theorem constPiece_within : (constPiece s).Within (.obj s.members) := by
  unfold constPiece
  split
  · exact within_empty
  · exact within_ask (Json.newline_notMem_compact _)

theorem numericPiece_within : (numericPiece s).Within (.obj s.members) := by
  unfold numericPiece
  refine within_wrap (within_bind fun _ _ => within_bind fun _ _ => within_bind fun _ _ =>
    within_bind fun _ _ => within_bind fun _ _ => within_bind fun _ _ => ?_)
  exact within_ofCalls _

theorem patternPiece_within : (patternPiece s).Within (.obj s.members) := by
  unfold patternPiece
  split
  · exact within_empty
  · exact within_ask (isPartOf_patternConstant _ _)
  · exact within_ofFault _

theorem stringPiece_within : (stringPiece s).Within (.obj s.members) := by
  unfold stringPiece
  refine within_wrap (within_bind fun _ _ => within_bind fun _ _ => ?_)
  exact within_append (within_ofCalls _) (patternPiece_within s)

/-- The items of a tuple are asked for one by one. -/
theorem tuplePieces_within {s : Site} {items : List Json}
    (h : s.get? "items" = some (.arr items)) :
    ∀ {rest : List Json} (i : Nat), rest ⊆ items →
      ∀ p ∈ tuplePieces s i rest, p.Within (.obj s.members)
  | [], _, _, p, hp => absurd hp (by simp [tuplePieces])
  | sub :: rest, i, hsub, p, hp => by
      obtain ⟨hmem, hrest⟩ := List.cons_subset.mp hsub
      rcases List.mem_cons.mp hp with rfl | hp
      · exact within_ask (isPartOf_item h hmem _)
      · exact tuplePieces_within h (i + 1) hrest p hp

theorem additionalItemsPiece_within (length : Nat) :
    (additionalItemsPiece s length).Within (.obj s.members) := by
  unfold additionalItemsPiece
  split
  · exact within_empty
  · exact within_empty
  · exact within_ofCalls _
  · next heq => exact within_ask (isPartOf_part heq _)

theorem itemsPiece_within : (itemsPiece s).Within (.obj s.members) := by
  unfold itemsPiece
  split
  · exact within_empty
  · next tuple heq =>
      exact within_append (within_concat (tuplePieces_within heq 0 (List.Subset.refl _)))
        (additionalItemsPiece_within s _)
  · next heq => exact within_ask (isPartOf_part heq _)

theorem containsPiece_within : (containsPiece s).Within (.obj s.members) := by
  unfold containsPiece
  split
  · exact within_empty
  · next heq => exact within_ask (isPartOf_part heq _)

theorem arrayPiece_within : (arrayPiece s).Within (.obj s.members) := by
  unfold arrayPiece
  refine within_wrap (within_bind fun _ _ => within_bind fun _ _ => within_concat ?_)
  intro p hp
  simp only [List.mem_cons, List.not_mem_nil, or_false] at hp
  rcases hp with rfl | rfl | rfl
  · exact itemsPiece_within s
  · exact containsPiece_within s
  · exact within_ofCalls _

theorem requiredPiece_within : (requiredPiece s).Within (.obj s.members) := by
  unfold requiredPiece
  split
  · exact within_empty
  · exact within_bind fun _ _ => within_ofCalls _
  · exact within_ofFault _

theorem propertyCountPiece_within : (propertyCountPiece s).Within (.obj s.members) :=
  within_bind fun _ _ => within_bind fun _ _ => within_ofCalls _

/-- The schema of additional properties lies inside the schema. -/
theorem additionalOf_checked {s : Site} {sub : Json} (h : additionalOf s = .checked sub) :
    s.get? "additionalProperties" = some sub := by
  unfold additionalOf at h
  split at h
  · exact absurd h (by simp)
  · exact absurd h (by simp)
  · exact absurd h (by simp)
  · next heq =>
      obtain rfl := Additional.checked.inj h
      exact heq

/-- The loop over properties asks for the schemas of patterns, of other properties and of names. -/
theorem loopPiece_within {s : Site} {known : List String} {patterns : Json.Members}
    (h : objectKeyword s "patternProperties" = .ok patterns) :
    (loopPiece s known patterns).Within (.obj s.members) := by
  unfold loopPiece
  refine within_ite (fun d hd => ?_) within_empty
  simp only [loopDemands, List.mem_append, List.mem_flatMap] at hd
  rcases hd with ((⟨m, hm, hd⟩ | hd) | hd) | hd
  · simp only [List.mem_cons, List.not_mem_nil, or_false] at hd
    rcases hd with rfl | rfl
    · exact isPartOf_patternConstant _ m.1
    · exact isPartOf_member h hm _
  · split at hd
    · next sub heq =>
        obtain rfl := List.mem_singleton.mp hd
        exact isPartOf_part (additionalOf_checked heq) _
    · exact absurd hd (by simp)
  · split at hd
    · next sub heq =>
        obtain rfl := List.mem_singleton.mp hd
        exact isPartOf_part heq _
    · exact absurd hd (by simp)
  · split at hd
    · exact absurd hd (by simp)
    · obtain rfl := List.mem_singleton.mp hd
      exact Json.newline_notMem_compact _

theorem propertiesPiece_within : (propertiesPiece s).Within (.obj s.members) := by
  unfold propertiesPiece
  refine within_bind fun properties hproperties => within_append (within_concat fun p hp => ?_) ?_
  · obtain ⟨m, hm, rfl⟩ := List.mem_map.mp hp
    exact within_ask (isPartOf_member hproperties hm _)
  · exact within_bind fun patterns hpatterns => loopPiece_within hpatterns

theorem dependencyPiece_within {s : Site} {dependencies : Json.Members}
    (h : objectKeyword s "dependencies" = .ok dependencies) {m : String × Json}
    (hm : m ∈ dependencies) : (dependencyPiece s m).Within (.obj s.members) := by
  unfold dependencyPiece
  simp only
  split
  · exact within_bind fun _ _ => within_ofCalls _
  · exact within_ask (isPartOf_member h hm _)

theorem dependenciesPiece_within : (dependenciesPiece s).Within (.obj s.members) := by
  refine within_bind fun dependencies h => within_concat fun p hp => ?_
  obtain ⟨m, hm, rfl⟩ := List.mem_map.mp hp
  exact dependencyPiece_within h hm

theorem objectPiece_within : (objectPiece s).Within (.obj s.members) := by
  unfold objectPiece
  refine within_wrap (within_concat fun p hp => ?_)
  simp only [List.mem_cons, List.not_mem_nil, or_false] at hp
  rcases hp with rfl | rfl | rfl | rfl
  · exact requiredPiece_within s
  · exact propertyCountPiece_within s
  · exact propertiesPiece_within s
  · exact dependenciesPiece_within s

/-- The schemas of a list are asked for one by one. -/
theorem listDemands_isPartOf {s : Site} {keyword : String} {items : List Json}
    (h : s.get? keyword = some (.arr items)) :
    ∀ {rest : List Json} (i : Nat), rest ⊆ items →
      ∀ d ∈ listDemands s keyword i rest, d.IsPartOf (.obj s.members)
  | [], _, _, d, hd => absurd hd (by simp [listDemands])
  | sub :: rest, i, hsub, d, hd => by
      obtain ⟨hmem, hrest⟩ := List.cons_subset.mp hsub
      rcases List.mem_cons.mp hd with rfl | hd
      · exact isPartOf_item h hmem _
      · exact listDemands_isPartOf h (i + 1) hrest d hd

/-- A combination of the schemas of a list, whichever it is. -/
theorem listPiece_within (keyword : String) (lines : List Nat → List Layout.Call) :
    (listPiece s keyword lines).Within (.obj s.members) := by
  unfold listPiece
  split
  · exact within_empty
  · next heq => exact listDemands_isPartOf heq 0 (List.Subset.refl _)
  · exact within_ofFault _

theorem notPiece_within : (notPiece s).Within (.obj s.members) := by
  unfold notPiece
  split
  · exact within_empty
  · next heq => exact within_ask (isPartOf_part heq _)

theorem conditionPiece_within : (conditionPiece s).Within (.obj s.members) := by
  unfold conditionPiece
  simp only
  split
  · exact within_empty
  · exact within_empty
  · next hc ht _ =>
      intro d hd
      simp only [List.mem_cons, List.not_mem_nil, or_false] at hd
      rcases hd with rfl | rfl
      · exact isPartOf_part ht _
      · exact isPartOf_part hc _
  · next hc _ he =>
      intro d hd
      simp only [List.mem_cons, List.not_mem_nil, or_false] at hd
      rcases hd with rfl | rfl
      · exact isPartOf_part he _
      · exact isPartOf_part hc _
  · next hc ht he =>
      intro d hd
      simp only [List.mem_cons, List.not_mem_nil, or_false] at hd
      rcases hd with rfl | rfl | rfl
      · exact isPartOf_part ht _
      · exact isPartOf_part he _
      · exact isPartOf_part hc _

/-! ## Bodies -/

/-- All keywords together. -/
theorem keywordsPiece_within (validateFormats : Bool) :
    (keywordsPiece validateFormats s).Within (.obj s.members) := by
  unfold keywordsPiece
  split
  · exact within_ofFault _
  · refine within_concat fun p hp => ?_
    simp only [List.mem_cons, List.not_mem_nil, or_false] at hp
    rcases hp with rfl | rfl | rfl | rfl | rfl | rfl | rfl | rfl | rfl | rfl | rfl | rfl | rfl | rfl
    · exact within_ofCalls _
    · exact typePiece_within s
    · exact enumPiece_within s
    · exact constPiece_within s
    · exact numericPiece_within s
    · exact stringPiece_within s
    · exact arrayPiece_within s
    · exact objectPiece_within s
    · exact listPiece_within s _ _
    · exact listPiece_within s _ _
    · exact listPiece_within s _ _
    · exact notPiece_within s
    · exact conditionPiece_within s
    · exact within_ofCalls _

/-- **The body of a schema demands nothing but parts and references of that schema.** -/
theorem body_within (validateFormats : Bool) (schema : Json) (location : String) :
    (body validateFormats schema location).Within schema := by
  unfold body
  split
  · exact within_ofCalls _
  · exact within_ofCalls _
  · next members =>
      simp only
      split
      · next r heq => exact within_ask (Json.mem_referencesOfMembers (Json.mem_of_get? heq))
      · exact within_ofFault _
      · exact keywordsPiece_within _ validateFormats
  · exact within_ofFault _

end DecoderForge.Standalone
