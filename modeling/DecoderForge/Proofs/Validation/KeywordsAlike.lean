import DecoderForge.Proofs.Validation.Alike
import DecoderForge.Validation.Reading

/-!
# DecoderForge — keywords that are read alike

A keyword is read with its value and its neighbours.  Where the schemas among these are read alike, and the
dialects of the two readings do not differ on the keyword, it is read alike.

## The architecture

* **`ReadAlike`** — readings that correspond, or that fail with the same fault.
* **`SchemaReading.PartAlike`**, **`SchemaReading.SurroundingsAlike`** — schemas in values and in neighbours.
* **`SchemaReading.DialectsAlike`** — dialects that do not differ on a keyword with its value.
* **`SchemaReading.readKeyword_alike`** — one keyword.
-/

namespace DecoderForge

/-! ## Results -/

/-- Results that correspond: values that do, or the same fault. -/
inductive ReadAlike {α β : Type} (rel : α → β → Prop) : Except String α → Except String β → Prop where
  | ok {a : α} {b : β} (h : rel a b) : ReadAlike rel (.ok a) (.ok b)
  | error (e : String) : ReadAlike rel (.error e) (.error e)

namespace ReadAlike

variable {α β γ δ : Type} {rel : α → β → Prop} {rel' : γ → δ → Prop}
  {x : Except String α} {y : Except String β}

theorem map (h : ReadAlike rel x y) {f : α → γ} {g : β → δ} (hfg : ∀ a b, rel a b → rel' (f a) (g b)) :
    ReadAlike rel' (x.map f) (y.map g) := by
  cases h with
  | ok h => exact .ok (hfg _ _ h)
  | error e => exact .error e

theorem mono {rel' : α → β → Prop} (h : ReadAlike rel x y) (hrel : ∀ a b, rel a b → rel' a b) :
    ReadAlike rel' x y := by
  cases h with
  | ok h => exact .ok (hrel _ _ h)
  | error e => exact .error e

theorem bind (h : ReadAlike rel x y) {f : α → Except String γ} {g : β → Except String δ}
    (hfg : ∀ a b, rel a b → ReadAlike rel' (f a) (g b)) : ReadAlike rel' (x >>= f) (y >>= g) := by
  cases h with
  | ok h => exact hfg _ _ h
  | error e => exact .error e

/-- Results that are all values, in turn. -/
theorem mapM {rel : α → β → Prop} {f : γ → Except String α} {g : δ → Except String β} {l : List γ} {l' : List δ}
    (h : List.Forall₂ (fun a b => ReadAlike rel (f a) (g b)) l l') :
    ReadAlike (List.Forall₂ rel) (l.mapM f) (l'.mapM g) := by
  induction h with
  | nil => exact .ok .nil
  | cons hfirst _ ih =>
      rw [List.mapM_cons, List.mapM_cons]
      refine hfirst.bind fun a b hab => ih.bind fun as bs hall => ?_
      exact .ok (.cons hab hall)

end ReadAlike

namespace SchemaReading

open Constraint (Alike AllAlike NamedAlike Matching)

variable {R : Matching} {same : Bool}

theorem allAlike_of_forall₂ {ps qs : List Constraint} (h : List.Forall₂ (Alike R same) ps qs) :
    AllAlike R same ps qs := by
  induction h with
  | nil => exact .nil
  | cons hfirst _ ih => exact .cons hfirst ih

theorem namedAlike_of_forall₂ {α : Type} {ks ls : List (α × Constraint)}
    (h : List.Forall₂ (fun k l => k.1 = l.1 ∧ Alike R same k.2 l.2) ks ls) : NamedAlike R same ks ls := by
  induction h with
  | nil => exact .nil
  | @cons k l _ _ hfirst _ ih =>
      obtain ⟨name, p⟩ := k
      obtain ⟨_, q⟩ := l
      obtain ⟨rfl, h⟩ := hfirst
      exact .cons name h ih

/-! ## Parts -/

/-- Schemas in the value of a keyword that are read alike. -/
inductive PartAlike (R : Matching) (same : Bool) : Part → Part → Prop where
  | none : PartAlike R same .none .none
  | one {p q : Read} (h : ReadAlike (Alike R same) p q) : PartAlike R same (.one p) (.one q)
  | many {ps qs : List Read} (h : List.Forall₂ (ReadAlike (Alike R same)) ps qs) :
      PartAlike R same (.many ps) (.many qs)
  | named {ks ls : List (String × Read)}
      (h : List.Forall₂ (fun k l => k.1 = l.1 ∧ ReadAlike (Alike R same) k.2 l.2) ks ls) :
      PartAlike R same (.named ks) (.named ls)

theorem any_alike : ReadAlike (Alike R same) (.ok .any) (.ok .any) := .ok (.all .nil)

theorem assert_alike (a : Assertion) : ReadAlike (Alike R same) (.ok (.assert a)) (.ok (.assert a)) :=
  .ok (.assert fun _ _ => Iff.rfl)

namespace PartAlike

variable {p q : Part}

theorem whole (h : PartAlike R same p q) : ReadAlike (Alike R same) p.whole q.whole := by
  cases h with
  | one h => exact h
  | none | many _ | named _ => exact any_alike

theorem items (h : PartAlike R same p q) : ReadAlike (AllAlike R same) p.items q.items := by
  cases h with
  | @many ps qs h =>
      have hall : ReadAlike (List.Forall₂ (Alike R same)) (ps.mapM id) (qs.mapM id) := .mapM h
      exact hall.mono fun _ _ => allAlike_of_forall₂
  | none | one _ | named _ => exact .ok .nil

theorem members (h : PartAlike R same p q) : ReadAlike (NamedAlike R same) p.members q.members := by
  cases h with
  | @named ks ls h =>
      have hall : ReadAlike (List.Forall₂ fun (k l : String × Constraint) => k.1 = l.1 ∧ Alike R same k.2 l.2)
          (ks.mapM fun k => k.2.map fun c => (k.1, c)) (ls.mapM fun l => l.2.map fun c => (l.1, c)) :=
        .mapM (h.imp fun k l hkl => hkl.2.map fun p q hpq => ⟨hkl.1, hpq⟩)
      exact hall.mono fun _ _ => namedAlike_of_forall₂
  | none | one _ | many _ => exact .ok .nil

end PartAlike

/-! ## Surroundings -/

/-- Whether the schemas in the value of a keyword are about the value itself that the schema around them is
about, and not about values inside it. -/
def isAboutWhole (keyword : String) : Bool :=
  ["allOf", "anyOf", "oneOf", "not", "if", "then", "else", "dependencies"].contains keyword

/-- Surroundings whose schemas are read alike, but for the definitions among them, which no constraint is
made from. -/
structure SurroundingsAlike (R : Matching) (same : Bool) (s t : Surroundings) : Prop where
  members : s.members = t.members
  exclusive : ∀ keyword ∈ ["exclusiveMinimum", "exclusiveMaximum"], isExclusive s keyword = isExclusive t keyword
  part : ∀ keyword ≠ definitionsKey,
    PartAlike R (same && isAboutWhole keyword) (s.part keyword) (t.part keyword)

namespace SurroundingsAlike

variable {s t : Surroundings} (h : SurroundingsAlike R same s t)

include h

theorem get?_eq (keyword : String) : s.get? keyword = t.get? keyword := by
  unfold Surroundings.get?
  rw [h.members]

theorem whole {keyword : String} (hkeyword : isAboutWhole keyword = true) (hcounts : keyword ≠ definitionsKey) :
    PartAlike R same (s.part keyword) (t.part keyword) := by
  have hpart := h.part keyword hcounts
  rwa [hkeyword, Bool.and_true] at hpart

theorem inside {keyword : String} (hkeyword : isAboutWhole keyword = false) (hcounts : keyword ≠ definitionsKey) :
    PartAlike R false (s.part keyword) (t.part keyword) := by
  have hpart := h.part keyword hcounts
  rwa [hkeyword, Bool.and_false] at hpart

end SurroundingsAlike

/-! ## Keywords without schemas -/

theorem readType_alike (draft : Draft) (v : Json) :
    ReadAlike (Alike R same) (readType draft v) (readType draft v) := by
  unfold readType
  split
  · split
    · exact assert_alike _
    · exact .error _
  · cases List.mapM typeName _ with
    | error e => exact .error e
    | ok names => exact assert_alike _
  · exact .error _

theorem bound_alike (v : Json) (make : Json.Number → Assertion) :
    ReadAlike (Alike R same) (bound v make) (bound v make) := by
  unfold bound
  split
  · exact assert_alike _
  · exact .error _

theorem limit_alike (v : Json) (make : Nat → Assertion) :
    ReadAlike (Alike R same) (limit v make) (limit v make) := by
  unfold limit
  split
  · split
    · exact assert_alike _
    · exact .error _
  · exact .error _

theorem readMultipleOf_alike (v : Json) : ReadAlike (Alike R same) (readMultipleOf v) (readMultipleOf v) := by
  unfold readMultipleOf
  split
  · exact assert_alike _
  · exact .error _

theorem readEnum_alike (v : Json) : ReadAlike (Alike R same) (readEnum v) (readEnum v) := by
  unfold readEnum
  split
  · exact assert_alike _
  · exact .error _

theorem readPattern_alike (v : Json) : ReadAlike (Alike R same) (readPattern v) (readPattern v) := by
  unfold readPattern
  split
  · split
    · exact assert_alike _
    · exact .error _
  · exact .error _

theorem readFormat_alike (d : Dialect) (v : Json) :
    ReadAlike (Alike R same) (readFormat d v) (readFormat d v) := by
  unfold readFormat
  split
  · exact any_alike
  · split
    · next name =>
      cases Format.ofName? d.draft name with
      | none => exact any_alike
      | some f => exact assert_alike _
    · exact .error _

/-- Dialects that do not differ on a keyword with its value. -/
structure DialectsAlike (R : Matching) (same : Bool) (d e : Dialect) (keyword : String) (v : Json) : Prop where
  known : isKeywordOf d.draft keyword = isKeywordOf e.draft keyword
  type : keyword = "type" → ReadAlike (Alike R same) (readType d.draft v) (readType e.draft v)
  format : keyword = "format" → ReadAlike (Alike R same) (readFormat d v) (readFormat e v)

theorem DialectsAlike.refl (d : Dialect) (keyword : String) (v : Json) : DialectsAlike R same d d keyword v :=
  ⟨rfl, fun _ => readType_alike d.draft v, fun _ => readFormat_alike d v⟩

theorem required_alike (v : Json) :
    ReadAlike (Alike R same) ((stringList v).map fun names => .assert (.required names))
      ((stringList v).map fun names => .assert (.required names)) := by
  cases stringList v with
  | error e => exact .error e
  | ok names => exact assert_alike _

theorem readPatterns_alike {members : Json.Members} : ∀ {ks ls : List (String × Constraint)},
    NamedAlike R same ks ls → ReadAlike (NamedAlike R same) (readPatterns ks members) (readPatterns ls members)
  | [], _, .nil => .ok .nil
  | (name, _) :: _, _, .cons _ h hrest => by
      have ih : ReadAlike (NamedAlike R same) (readPatterns _ members) (readPatterns _ members) :=
        readPatterns_alike hrest
      rw [readPatterns, readPatterns]
      split
      · exact ih.map fun _ _ hall => .cons _ h hall
      · exact .error _

/-- Schemas of dependencies, under the names that members of the keyword have. -/
theorem readDependencies_alike : ∀ {members : Json.Members} {ks ls : List (String × Read)},
    List.Forall₂ (fun k l => k.1 = l.1 ∧ ReadAlike (Alike R same) k.2 l.2) ks ls →
      ReadAlike (NamedAlike R same) (readDependencies members ks) (readDependencies members ls)
  | [], _, _, _ => by
      rw [readDependencies.eq_def, readDependencies.eq_def]
      exact .ok .nil
  | m :: rest, _, _, .nil => by
      rw [readDependencies.eq_def]
      split <;> first | exact .ok .nil | contradiction
  | (name, v) :: rest, _, _, .cons hfirst hall => by
      have ih : ReadAlike (NamedAlike R same) (readDependencies rest _) (readDependencies rest _) :=
        readDependencies_alike hall
      cases v with
      | arr items =>
          rw [readDependencies, readDependencies]
          cases strings items with
          | error e => exact .error e
          | ok names => exact ih.bind fun _ _ hmore => .ok (.cons name (.assert fun _ _ => Iff.rfl) hmore)
      | null | bool _ | num _ | str _ | obj _ =>
          rw [readDependencies, readDependencies]
          · exact hfirst.2.bind fun _ _ hpart => ih.bind fun _ _ hmore => .ok (.cons name hpart hmore)
          all_goals simp

section Neighbours

variable {s t : Surroundings} (h : SurroundingsAlike R same s t)

include h

theorem readMediaType_alike (v : Json) : ReadAlike (Alike R same) (readMediaType s v) (readMediaType t v) := by
  unfold readMediaType
  rw [h.get?_eq]
  split
  · split
    · exact any_alike
    · split
      · exact assert_alike _
      · split
        · exact assert_alike _
        · exact any_alike
      · exact .error _
  · exact .error _

theorem readEncoding_alike (v : Json) : ReadAlike (Alike R same) (readEncoding s v) (readEncoding t v) := by
  unfold readEncoding
  rw [h.get?_eq]
  split
  · exact any_alike
  · split
    · split
      · exact assert_alike _
      · exact any_alike
    · exact .error _

theorem ruledByAdditional_alike : ruledByAdditional s = ruledByAdditional t := by
  unfold ruledByAdditional
  rw [h.get?_eq]

/-! ## Keywords with schemas -/

theorem knownParts_alike : ReadAlike (NamedAlike R false) (knownParts s) (knownParts t) := by
  unfold knownParts
  rw [h.get?_eq]
  split
  · exact .ok .nil
  · exact (h.inside (by decide) (by decide)).members
  · exact .error _

theorem patternedParts_alike : ReadAlike (NamedAlike R false) (patternedParts s) (patternedParts t) := by
  unfold patternedParts
  rw [h.get?_eq]
  split
  · exact .ok .nil
  · exact (h.inside (by decide) (by decide)).members.bind fun _ _ hall => readPatterns_alike hall
  · exact .error _

theorem readAdditionalProperties_alike (v : Json) :
    ReadAlike (Alike R same) (readAdditionalProperties s v) (readAdditionalProperties t v) := by
  unfold readAdditionalProperties
  refine (patternedParts_alike h).bind fun ps qs hpatterned => ?_
  rw [h.get?_eq, h.get?_eq]
  split
  · exact any_alike
  · split
    · exact assert_alike _
    · exact (knownParts_alike h).bind fun _ _ hknown => .ok (.onlyProperties hknown hpatterned)
  · refine (h.inside (by decide) (by decide)).whole.bind fun _ _ hothers => ?_
    exact (knownParts_alike h).bind fun _ _ hknown => .ok (.allProperties hknown hpatterned hothers)

theorem readAdditionalItems_alike (v : Json) :
    ReadAlike (Alike R same) (readAdditionalItems s v) (readAdditionalItems t v) := by
  unfold readAdditionalItems
  rw [h.get?_eq]
  split
  · exact assert_alike _
  · exact (h.inside (by decide) (by decide)).whole.map fun _ _ hpart => .itemsBeyond _ hpart
  · exact .ok .never
  · exact any_alike

theorem readItems_alike (v : Json) : ReadAlike (Alike R same) (readItems s v) (readItems t v) := by
  have hpart : PartAlike R false (s.part "items") (t.part "items") := h.inside (by decide) (by decide)
  unfold readItems
  split
  · exact hpart.items.map fun _ _ hall => .tuple hall
  · exact hpart.whole.map fun _ _ h => .items h
  · exact hpart.whole.map fun _ _ h => .items h
  · exact any_alike

theorem readCondition_alike : ReadAlike (Alike R same) (readCondition s) (readCondition t) := by
  unfold readCondition
  rw [h.get?_eq, h.get?_eq]
  split
  · exact any_alike
  · refine (h.whole (by decide) (by decide)).whole.bind fun _ _ htest => ?_
    refine (h.whole (by decide) (by decide)).whole.bind fun _ _ hyes => ?_
    refine (h.whole (by decide) (by decide)).whole.bind fun _ _ hno => ?_
    exact .ok (.cond htest hyes hno)

theorem readList_alike {keyword : String} (hkeyword : isAboutWhole keyword = true)
    (hcounts : keyword ≠ definitionsKey) (v : Json)
    {make : List Constraint → Constraint}
    (hmake : ∀ ps qs, AllAlike R same ps qs → Alike R same (make ps) (make qs)) :
    ReadAlike (Alike R same) (readList s keyword v make) (readList t keyword v make) := by
  unfold readList
  split
  · exact (h.whole hkeyword hcounts).items.map hmake
  · exact .error _

theorem dependencies_alike (v : Json) :
    ReadAlike (Alike R same)
      (match v, s.part "dependencies" with
        | .obj members, .named parts => (readDependencies members parts).map .dependencies
        | _, _ => .error schemaFault)
      (match v, t.part "dependencies" with
        | .obj members, .named parts => (readDependencies members parts).map .dependencies
        | _, _ => .error schemaFault) := by
  have hpart : PartAlike R same (s.part "dependencies") (t.part "dependencies") := h.whole (by decide) (by decide)
  -- both look-ups become variables, so that the cases of what is alike are theirs
  revert hpart
  generalize s.part "dependencies" = p, t.part "dependencies" = q
  intro hpart
  cases v with
  | obj members =>
      cases hpart with
      | named hall => exact (readDependencies_alike hall).map fun _ _ hknown => .dependencies hknown
      | none | one _ | many _ => exact .error _
  | null | bool _ | num _ | str _ | arr _ => exact .error _

/-- **A keyword is read alike** where its neighbours are, and where the dialects do not differ on it. -/
theorem readKeyword_alike {keyword : String} {v : Json} (hd : DialectsAlike R same s.dialect t.dialect keyword v) :
    ReadAlike (Alike R same) (readKeyword s keyword v) (readKeyword t keyword v) := by
  unfold readKeyword
  rw [hd.known]
  split
  · exact any_alike
  -- the keywords in the order in which they are read
  · split
    · exact hd.type rfl
    · exact readEnum_alike v
    · exact assert_alike _
    · rw [h.exclusive _ (by simp)]
      exact bound_alike v _
    · rw [h.exclusive _ (by simp)]
      exact bound_alike v _
    · exact bound_alike v _
    · exact bound_alike v _
    · exact readMultipleOf_alike v
    · exact limit_alike v _
    · exact limit_alike v _
    · exact readPattern_alike v
    · exact hd.format rfl
    · exact limit_alike v _
    · exact limit_alike v _
    · split
      · exact assert_alike _
      · exact any_alike
    · exact readItems_alike h v
    · exact readAdditionalItems_alike h v
    · exact (h.inside (by decide) (by decide)).whole.map fun _ _ hpart => .contains hpart
    · exact required_alike v
    · exact limit_alike v _
    · exact limit_alike v _
    · rw [ruledByAdditional_alike h]
      split
      · exact any_alike
      · exact (knownParts_alike h).map fun _ _ hknown => .properties hknown
    · rw [ruledByAdditional_alike h]
      split
      · exact any_alike
      · exact (patternedParts_alike h).map fun _ _ hpatterned => .patterns hpatterned
    · exact readAdditionalProperties_alike h v
    · split
      · exact (h.inside (by decide) (by decide)).whole.map fun _ _ hpart => .propertyNames hpart
      · exact assert_alike _
      · exact any_alike
    · exact dependencies_alike h v
    · exact readList_alike h (by decide) (by decide) v fun _ _ hall => .all hall
    · exact readList_alike h (by decide) (by decide) v fun _ _ hall => .anyOf hall
    · exact readList_alike h (by decide) (by decide) v fun _ _ hall => .oneOf hall
    · exact (h.whole (by decide) (by decide)).whole.map fun _ _ hpart => .not v hpart
    · exact readCondition_alike h
    · exact readMediaType_alike h v
    · exact readEncoding_alike h v
    · exact any_alike

end Neighbours

end SchemaReading

end DecoderForge
