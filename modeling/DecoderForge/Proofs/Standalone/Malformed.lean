import DecoderForge.Proofs.Validation.Lone
import DecoderForge.Proofs.Standalone.Emission

/-!
# DecoderForge — keywords with values that no schema may have

The meta-schema of draft 7 says which values a keyword may have.  Emission has checks of its own, one in the
piece of each keyword, and they are not the same: what the meta-schema forbids is a fault for most keywords, and
passes for some.  Which values pass is said here keyword by keyword, and that it is no more and no fewer.

Some of them make checks that cannot work: a constant that is no list has no `some`, an empty list of types
gives an empty condition.

## The architecture

* **`allowed`** — what the meta-schema asks of a value, schemas inside it left to themselves
  (**`describes_iff`**).
* **`overlooks`** — the values that pass although they are forbidden.
* **`forbidden_eq_overlooks`** — one schema, by cases on the keyword.
* **`forbidden_iff_overlooks`** — all schemas that are visited.
-/

namespace DecoderForge.Standalone

/-! ## The meta-schema -/

/-- A value of a kind that schemas are of. -/
def isSchemaLike : Json → Bool
  | .bool _ | .obj _ => true
  | _ => false

/-- Whether the meta-schema of draft 7 lets a keyword have a value, where schemas inside the value need only be
of the right kind. -/
def allowed (keyword : String) (v : Json) : Bool :=
  match SchemaPlace.ofKeyword keyword, v with
  | .nowhere, v => Draft.draft7.allowsValue keyword v
  | .whole, v => isSchemaLike v
  | .items, .arr vs => !vs.isEmpty && vs.all isSchemaLike
  | .items, _ => false
  | .wholeOrItems, .arr vs => !vs.isEmpty && vs.all isSchemaLike
  | .wholeOrItems, v => isSchemaLike v
  | .members, .obj named => Draft.draft7.allowsNames keyword named && named.all fun m => isSchemaLike m.2
  | .members, _ => false
  | .membersOrNames, .obj named => named.all fun m => isSchemaLike m.2 || Draft.draft7.isNameList m.2
  | .membersOrNames, _ => false

/-- The schemas inside the value of a keyword. -/
def schemasIn (keyword : String) (v : Json) : List Json :=
  match SchemaPlace.ofKeyword keyword, v with
  | .whole, v => [v]
  | .items, .arr vs | .wholeOrItems, .arr vs => vs
  | .wholeOrItems, v => [v]
  | .members, .obj named => named.map Prod.snd
  | .membersOrNames, .obj named => (named.map Prod.snd).filter fun v => !Draft.draft7.isNameList v
  | _, _ => []

/-! ### What the meta-schema says, keyword by keyword -/

section MetaSchema

theorem isSchemaLike_of_describes {v : Json} (h : Draft.draft7.describes v = true) : isSchemaLike v = true := by
  cases v with
  | bool _ | obj _ => rfl
  | null | num _ | str _ | arr _ => exact absurd h (by simp [Draft.describes])

theorem describesAll_eq_all (vs : List Json) : Draft.draft7.describesAll vs = vs.all Draft.draft7.describes := by
  induction vs with
  | nil => rfl
  | cons v rest ih => rw [Draft.describesAll, List.all_cons, ih]

theorem describesOrNames_eq_all : ∀ named : Json.Members,
    Draft.draft7.describesOrNames named = named.all fun m => Draft.draft7.describes m.2 || Draft.draft7.isNameList m.2
  | [] => rfl
  | (_, v) :: rest => by rw [Draft.describesOrNames, List.all_cons, describesOrNames_eq_all rest]

/-- Schemas are of the right kind, so that asking for both is asking for schemas. -/
theorem all_describes_iff {vs : List Json} : vs.all Draft.draft7.describes = true
    ↔ vs.all isSchemaLike = true ∧ ∀ sub ∈ vs, Draft.draft7.describes sub = true := by
  simp only [List.all_eq_true]
  exact ⟨fun h => ⟨fun v hv => isSchemaLike_of_describes (h v hv), h⟩, And.right⟩

/-- The value of one keyword. -/
def describesValue (keyword : String) (v : Json) : Bool := Draft.draft7.describesKeywords [(keyword, v)]

theorem describesKeywords_iff : ∀ members : Json.Members,
    Draft.draft7.describesKeywords members = true ↔ ∀ m ∈ members, describesValue m.1 m.2 = true
  | [] => by
      rw [Draft.describesKeywords]
      simp
  | (keyword, v) :: rest => by
      have hcons : Draft.draft7.describesKeywords ((keyword, v) :: rest)
          = (describesValue keyword v && Draft.draft7.describesKeywords rest) := by
        rw [describesValue, Draft.describesKeywords.eq_def, Draft.describesKeywords.eq_def Draft.draft7 [_]]
        simp only
        rw [Draft.describesKeywords.eq_1, Bool.and_true]
      rw [hcons, Bool.and_eq_true, describesKeywords_iff rest, List.forall_mem_cons]

theorem describesValue_iff (keyword : String) (v : Json) : describesValue keyword v = true
    ↔ allowed keyword v = true ∧ ∀ sub ∈ schemasIn keyword v, Draft.draft7.describes sub = true := by
  have hrules : Draft.draft7.rules keyword = true := by
    unfold Draft.rules
    split <;> rfl
  have hflag : Draft.draft7.allowsFlag keyword = true := rfl
  unfold describesValue allowed schemasIn
  rw [Draft.describesKeywords.eq_def]
  simp only
  rw [Draft.describesKeywords.eq_1, Bool.and_true, hrules, Bool.not_true, if_neg Bool.false_ne_true]
  cases SchemaPlace.ofKeyword keyword with
  | nowhere => simp
  | whole => cases v <;> simp [Draft.describes, hflag, isSchemaLike]
  | items => cases v <;> simp [describesAll_eq_all, all_describes_iff, and_assoc, -List.all_eq_true]
  | wholeOrItems =>
      cases v with
      | arr vs => simp [describesAll_eq_all, all_describes_iff, and_assoc, -List.all_eq_true]
      | null | bool _ | num _ | str _ | obj _ => simp [Draft.describes, isSchemaLike]
  | members =>
      cases v with
      | obj named =>
          simp only [Draft.describesMembers_eq_all, Bool.and_eq_true, List.all_eq_true, List.forall_mem_map, and_assoc]
          refine and_congr_right fun _ => ?_
          exact ⟨fun h => ⟨fun m hm => isSchemaLike_of_describes (h m hm), h⟩, And.right⟩
      | null | bool _ | num _ | str _ | arr _ => simp
  | membersOrNames =>
      cases v with
      | obj named =>
          simp only [describesOrNames_eq_all, Bool.or_eq_true, List.all_eq_true, List.mem_filter, List.mem_map,
            Bool.not_eq_true', and_imp, forall_exists_index, forall_apply_eq_imp_iff₂]
          constructor
          · exact fun h => ⟨fun m hm => (h m hm).imp_left isSchemaLike_of_describes,
              fun m hm hlist => (h m hm).resolve_right (by simp [hlist])⟩
          · rintro ⟨-, h⟩ m hm
            cases hlist : Draft.draft7.isNameList m.2 with
            | true => exact Or.inr rfl
            | false => exact Or.inl (h m hm hlist)
      | null | bool _ | num _ | str _ | arr _ => simp

/-- **The meta-schema of draft 7 asks of an object that each value is allowed under its keyword**, and that the
schemas inside the values are schemas. -/
theorem describes_iff (members : Json.Members) : Draft.draft7.describes (.obj members) = true
    ↔ ∀ m ∈ members, allowed m.1 m.2 = true ∧ ∀ sub ∈ schemasIn m.1 m.2, Draft.draft7.describes sub = true := by
  have hflags : Draft.draft7.flagsHaveLimits members = true := rfl
  rw [Draft.describes, hflags, Bool.and_true, describesKeywords_iff]
  exact forall₂_congr fun m _ => describesValue_iff m.1 m.2

end MetaSchema

/-! ## What passes -/

/-- A value that is forbidden under a keyword.  Flags in place of exclusive bounds, as in draft 4, are none. -/
def forbidden (keyword : String) (v : Json) : Bool :=
  !(allowed keyword v || (["exclusiveMinimum", "exclusiveMaximum"].contains keyword && isFlag v))

def isList (v : Json) : Bool := v.asItems?.isSome

/-- A list in which a value occurs twice. -/
def isRepetitive : Json → Bool
  | .arr items => !Json.allDistinct items
  | _ => false

def isEmptyList : Json → Bool
  | .arr [] => true
  | _ => false

/-- The values that emission lets pass under a keyword of a schema, although the meta-schema forbids them: a
check that cannot work is written for them, or none. -/
def overlooks (members : Json.Members) (keyword : String) (v : Json) : Bool :=
  match keyword with
  | "enum" => !isList v
  | "type" => isEmptyList v || isRepetitive v
  | "items" => isEmptyList v
  | "uniqueItems" => !isFlag v
  | "required" => isRepetitive v
  | "dependencies" => v.asMembers?.any fun named => named.any fun m => isRepetitive m.2
  | "pattern" => v.asString?.any fun p => !Format.regex.holds p.toList
  | "patternProperties" => v.asMembers?.any fun named => named.any fun m => !Format.regex.holds m.1.toList
  -- schemas that nothing applies
  | "additionalItems" => !isSchemaLike v && !(members.get? "items").any isList
  | "if" => !isSchemaLike v && (members.get? "then").isNone && (members.get? "else").isNone
  | "then" | "else" => !isSchemaLike v && (members.get? "if").isNone
  | _ => false

section Passing

variable {members : Json.Members} {validateFormats : Bool} {keyword : String} {v : Json}

theorem isSchemaLike_of_hasBody (h : HasBody validateFormats v) : isSchemaLike v = true := by
  cases v with
  | bool _ | obj _ => rfl
  | null | num _ | str _ | arr _ => exact h.elim

theorem forbidden_of_allowed (h : allowed keyword v = true) : forbidden keyword v = false := by
  simp [forbidden, h]

theorem forbidden_eq_not_allowed (h : ["exclusiveMinimum", "exclusiveMaximum"].contains keyword = false) :
    forbidden keyword v = !allowed keyword v := by
  simp only [forbidden, h, Bool.false_and, Bool.or_false]

/-- Only keywords that hold no schemas may have a flag that the meta-schema does not allow. -/
theorem forbidden_eq_not_allowed_of_place (h : SchemaPlace.ofKeyword keyword ≠ .nowhere) :
    forbidden keyword v = !allowed keyword v := by
  refine forbidden_eq_not_allowed (Bool.eq_false_iff.mpr fun hmem => ?_)
  simp only [List.contains_iff_mem, List.mem_cons, List.not_mem_nil, or_false] at hmem
  rcases hmem with rfl | rfl <;> exact h rfl

/-! ### Values without schemas -/

theorem isTypeWord_eq (v : Json) : Draft.isTypeWord v = v.asString?.any jsonTypes.contains := by
  cases v with
  | str word =>
      simp only [Draft.isTypeWord, TypeName.ofWord?, List.isSome_find?, Json.asString?, Option.any_some]
      rw [Bool.eq_iff_iff, List.any_eq_true, List.contains_iff_mem]
      constructor
      · rintro ⟨t, -, ht⟩
        rw [← beq_iff_eq.mp ht]
        cases t <;> decide
      · intro h
        simp only [jsonTypes, List.mem_cons, List.not_mem_nil, or_false] at h
        rcases h with rfl | rfl | rfl | rfl | rfl | rfl | rfl <;> decide
  | null | bool _ | num _ | arr _ | obj _ => rfl

theorem forbidden_type (h : isTypes v = true) : forbidden "type" v = (isEmptyList v || isRepetitive v) := by
  rw [forbidden_eq_not_allowed rfl, show allowed "type" v = Draft.isTypeList v from rfl]
  cases v with
  | str word =>
      have hword : Draft.isTypeWord (.str word) = true := (isTypeWord_eq (.str word)).trans h
      exact congrArg (!·) hword
  | arr items =>
      have hall : items.all Draft.isTypeWord = true := (congrArg items.all (funext isTypeWord_eq)).trans h
      cases items with
      | nil => rfl
      | cons first rest => simp [Draft.isTypeList, hall, isEmptyList, isRepetitive, -List.all_cons]
  | null | bool _ | num _ | obj _ => exact absurd h (by simp [isTypes])

theorem isNameList_eq {items : List Json} (h : items.all isText = true) :
    Draft.draft7.isNameList (.arr items) = !isRepetitive (.arr items) := by
  have hall : items.all Draft.isText = true := by
    rw [← h]
    exact congrArg items.all (funext fun v => by cases v <;> rfl)
  simp only [Draft.isNameList, hall, isRepetitive, Bool.true_and, Bool.not_not]
  exact Bool.and_true _

theorem forbidden_required (h : isTexts v = true) : forbidden "required" v = isRepetitive v := by
  rw [forbidden_eq_not_allowed rfl, show allowed "required" v = Draft.draft7.isNameList v from rfl]
  cases v with
  | arr items => rw [isNameList_eq h, Bool.not_not]
  | null | bool _ | num _ | str _ | obj _ => exact absurd h (by simp [isTexts])

theorem forbidden_pattern (h : isText v = true) :
    forbidden "pattern" v = v.asString?.any fun p => !Format.regex.holds p.toList := by
  rw [forbidden_eq_not_allowed rfl]
  cases v with
  | str p => rfl
  | null | bool _ | num _ | arr _ | obj _ => exact absurd h (by simp [isText, Json.asString?])

theorem forbidden_count (hkeyword : allowed keyword v = Draft.draft7.isCount v) (h : v.asNat?.isSome = true) :
    forbidden keyword v = false := by
  refine forbidden_of_allowed (hkeyword.trans ?_)
  unfold Json.asNat? at h
  split at h
  · next n =>
    split at h
    · next hn =>
      have hnot : compareOfLessAndEq n 0 ≠ .lt := by
        rw [compareOfLessAndEq, if_neg (by omega)]
        split <;> simp
      exact bne_iff_ne.mpr hnot
    · exact absurd h (by simp)
  · exact absurd h (by simp)

theorem forbidden_number (hkeyword : allowed keyword v = Draft.isNumber v) (h : isNumber v = true) :
    forbidden keyword v = false := by
  refine forbidden_of_allowed (hkeyword.trans ?_)
  cases v with
  | num _ => rfl
  | null | bool _ | str _ | arr _ | obj _ => exact absurd h (by simp [isNumber])

theorem forbidden_multipleOf (h : isPositive v = true) : forbidden "multipleOf" v = false := by
  refine forbidden_of_allowed ?_
  cases v with
  | num _ => exact h
  | null | bool _ | str _ | arr _ | obj _ => exact absurd h (by simp [isPositive])

/-- Numbers, and flags as in draft 4. -/
theorem forbidden_exclusive (hkeyword : keyword ∈ ["exclusiveMinimum", "exclusiveMaximum"])
    (h : (isNumber v || isFlag v) = true) : forbidden keyword v = false := by
  cases v with
  | bool _ => simp [forbidden, hkeyword, isFlag]
  | num _ =>
      simp only [List.mem_cons, List.not_mem_nil, or_false] at hkeyword
      rcases hkeyword with rfl | rfl <;> rfl
  | null | str _ | arr _ | obj _ => exact absurd h (by simp [isNumber, isFlag])

/-! ### Values with schemas -/

/-- A schema that is applied is of the right kind, and a value that is not applied may be of any. -/
theorem forbidden_whole (hplace : SchemaPlace.ofKeyword keyword = .whole) :
    forbidden keyword v = !isSchemaLike v := by
  rw [forbidden_eq_not_allowed_of_place (by simp [hplace])]
  unfold allowed
  rw [hplace]

/-- A schema that counts under some condition only. -/
theorem forbidden_dormant (hplace : SchemaPlace.ofKeyword keyword = .whole) {dormant : Bool}
    (h : dormant = false → isSchemaLike v = true) : forbidden keyword v = (!isSchemaLike v && dormant) := by
  rw [forbidden_whole hplace]
  cases dormant with
  | true => exact (Bool.and_true _).symm
  | false => simp [h rfl]

theorem forbidden_listed (hplace : SchemaPlace.ofKeyword keyword = .items) (h : isFilledList v = true)
    (hsubs : ∀ subs, v = .arr subs → ∀ sub ∈ subs, isSchemaLike sub = true) : forbidden keyword v = false := by
  refine forbidden_of_allowed ?_
  unfold allowed
  rw [hplace]
  cases v with
  | arr subs =>
      cases subs with
      | nil => exact absurd h (by simp [isFilledList])
      | cons first rest => simpa using hsubs _ rfl
  | null | bool _ | num _ | str _ | obj _ => exact absurd h (by simp [isFilledList])

theorem forbidden_items (hwhole : v.asItems? = none → isSchemaLike v = true)
    (htuple : ∀ tuple, v = .arr tuple → ∀ sub ∈ tuple, isSchemaLike sub = true) :
    forbidden "items" v = isEmptyList v := by
  rw [forbidden_eq_not_allowed rfl]
  cases v with
  | arr tuple =>
      cases tuple with
      | nil => rfl
      | cons first rest =>
          have hall : (first :: rest).all isSchemaLike = true := List.all_eq_true.mpr (htuple _ rfl)
          show (!(!(first :: rest).isEmpty && (first :: rest).all isSchemaLike)) = false
          rw [hall]
          rfl
  | null | bool _ | num _ | str _ | obj _ => exact congrArg (!·) (hwhole rfl)

theorem forbidden_members (hplace : SchemaPlace.ofKeyword keyword = .members) (h : v.asMembers?.isSome = true)
    (hsubs : ∀ named, v = .obj named → ∀ m ∈ named, isSchemaLike m.2 = true) :
    forbidden keyword v = v.asMembers?.any fun named => !Draft.draft7.allowsNames keyword named := by
  rw [forbidden_eq_not_allowed_of_place (by simp [hplace])]
  unfold allowed
  rw [hplace]
  cases v with
  | obj named =>
      have hall : (named.all fun m => isSchemaLike m.2) = true := List.all_eq_true.mpr (hsubs _ rfl)
      simp only [hall, Bool.and_true]
      rfl
  | null | bool _ | num _ | str _ | arr _ => exact absurd h (by simp [Json.asMembers?])

theorem forbidden_dependencies (h : isDependencies v = true)
    (hsubs : ∀ named, v = .obj named → ∀ m ∈ named, m.2.asItems? = none → isSchemaLike m.2 = true) :
    forbidden "dependencies" v = v.asMembers?.any fun named => named.any fun m => isRepetitive m.2 := by
  rw [forbidden_eq_not_allowed rfl]
  cases v with
  | obj named =>
      show (!(named.all fun m => isSchemaLike m.2 || Draft.draft7.isNameList m.2)) = named.any fun m => isRepetitive m.2
      rw [List.not_all_eq_any_not, Bool.eq_iff_iff, List.any_eq_true, List.any_eq_true]
      refine exists_congr fun m => and_congr_right fun hm => ?_
      obtain ⟨name, w⟩ := m
      have hnames := List.all_eq_true.mp h _ hm
      cases w with
      | arr items => simp [isSchemaLike, isNameList_eq hnames]
      | null | bool _ | num _ | str _ | obj _ => simp [hsubs named rfl _ hm rfl, isRepetitive]
  | null | bool _ | num _ | str _ | arr _ => exact absurd h (by simp [isDependencies])

/-! ### All keywords -/

theorem exists_items_of_any {o : Option Json} (h : o.any isList = true) : ∃ items, o = some (.arr items) := by
  obtain ⟨w, rfl, hlist⟩ := (Option.any_eq_true _ _).mp h
  cases w with
  | arr items => exact ⟨items, rfl⟩
  | null | bool _ | num _ | str _ | obj _ => exact absurd hlist (by simp [isList, Json.asItems?])

theorem exists_of_isNone_eq_false {o : Option Json} (h : o.isNone = false) : ∃ w, o = some w :=
  Option.isSome_iff_exists.mp (by simpa using h)

/-- **What is forbidden and passes, in a schema whose body can be made.** -/
theorem forbidden_eq_overlooks (hbody : HasBody validateFormats (.obj members))
    (href : Json.Members.get? members "$ref" = none)
    (hsubs : ∀ sub, Applies members sub → isSchemaLike sub = true) (h : keyword ∈ supportedKeywords)
    (hv : Json.Members.get? members keyword = some v) : forbidden keyword v = overlooks members keyword v := by
  have htakes : takes keyword v = true := by
    simp only [HasBody, href] at hbody
    exact hbody.2 keyword v hv
  have hlisted (hmem : keyword ∈ ["allOf", "anyOf", "oneOf"]) (subs : List Json) (hsubs' : v = .arr subs)
      (sub : Json) (hsub : sub ∈ subs) : isSchemaLike sub = true := hsubs sub (.listed hmem (hsubs' ▸ hv) hsub)
  have hnamed (hmem : keyword ∈ ["properties", "patternProperties"]) (named : Json.Members) (hobj : v = .obj named)
      (m : String × Json) (hm : m ∈ named) : isSchemaLike m.2 = true := hsubs m.2 (.named hmem (hobj ▸ hv) hm)
  simp only [supportedKeywords, List.mem_cons, List.not_mem_nil, or_false] at h
  rcases h with rfl | rfl | rfl | rfl | rfl | rfl | rfl | rfl | rfl | rfl | rfl | rfl | rfl | rfl | rfl | rfl | rfl
    | rfl | rfl | rfl | rfl | rfl | rfl | rfl | rfl | rfl | rfl | rfl | rfl | rfl | rfl | rfl | rfl
  -- types and constants
  · exact absurd (href.symm.trans hv) (by simp)
  · exact forbidden_type htakes
  · rw [forbidden_eq_not_allowed rfl]
    cases v <;> rfl
  · rfl
  -- numbers
  · exact forbidden_number rfl htakes
  · exact forbidden_number rfl htakes
  · exact forbidden_exclusive (by simp) htakes
  · exact forbidden_exclusive (by simp) htakes
  · exact forbidden_multipleOf htakes
  -- strings
  · exact forbidden_count rfl htakes
  · exact forbidden_count rfl htakes
  · exact forbidden_pattern htakes
  -- arrays
  · exact forbidden_items (fun hnone => hsubs v (.items hv hnone))
      fun tuple htuple sub hsub => hsubs sub (.item (htuple ▸ hv) hsub)
  · refine forbidden_dormant rfl fun hcounts => ?_
    obtain ⟨tuple, htuple⟩ := exists_items_of_any (by simpa using hcounts)
    exact hsubs v (.rest htuple hv)
  · exact forbidden_of_allowed (hsubs v (.whole (by simp) hv))
  · exact forbidden_count rfl htakes
  · exact forbidden_count rfl htakes
  · rw [forbidden_eq_not_allowed rfl]
    cases v <;> rfl
  -- objects
  · rw [forbidden_members rfl htakes (hnamed (by simp))]
    cases v <;> rfl
  · exact forbidden_required htakes
  · exact forbidden_of_allowed (hsubs v (.whole (by simp) hv))
  · rw [forbidden_members rfl htakes (hnamed (by simp))]
    exact congrArg v.asMembers?.any (funext fun named => List.not_all_eq_any_not)
  · exact forbidden_of_allowed (hsubs v (.whole (by simp) hv))
  · exact forbidden_count rfl htakes
  · exact forbidden_count rfl htakes
  · exact forbidden_dependencies htakes fun named hobj m hm hnone => hsubs m.2 (.dependency (hobj ▸ hv) hm hnone)
  -- combinations
  · exact forbidden_listed rfl htakes (hlisted (by simp))
  · exact forbidden_listed rfl htakes (hlisted (by simp))
  · exact forbidden_listed rfl htakes (hlisted (by simp))
  · exact forbidden_of_allowed (hsubs v (.whole (by simp) hv))
  · rw [overlooks, Bool.and_assoc]
    refine forbidden_dormant rfl fun hcounts => ?_
    rcases Bool.and_eq_false_iff.mp hcounts with h | h
    · obtain ⟨branch, hbranch⟩ := exists_of_isNone_eq_false h
      exact hsubs v (.condition (by simp) hv hbranch)
    · obtain ⟨branch, hbranch⟩ := exists_of_isNone_eq_false h
      exact hsubs v (.condition (by simp) hv hbranch)
  · refine forbidden_dormant rfl fun hcounts => ?_
    obtain ⟨condition, hif⟩ := exists_of_isNone_eq_false hcounts
    exact hsubs v (.branch (by simp) hif hv)
  · refine forbidden_dormant rfl fun hcounts => ?_
    obtain ⟨condition, hif⟩ := exists_of_isNone_eq_false hcounts
    exact hsubs v (.branch (by simp) hif hv)

end Passing

/-! ## Modules -/

/-- **What a module overlooks.**  Where emission succeeds, every reference that is visited is a text with a target,
and under the keywords with code of every other schema exactly the forbidden values that are listed have passed.  So
every other forbidden value, wherever it is visited, makes emission fail. -/
theorem forbidden_iff_overlooks {root : Json} {validateFormats : Bool} {pointer text : String}
    (h : source root validateFormats pointer = .ok text) :
    ∃ target, resolveLocal? root pointer = some target ∧ ∀ members, Visited root target (.obj members) →
      (∀ v, Json.Members.get? members "$ref" = some v → ∃ r t, v = .str r ∧ resolveLocal? root r = some t)
      ∧ (Json.Members.get? members "$ref" = none → ∀ keyword ∈ supportedKeywords, ∀ v,
          Json.Members.get? members keyword = some v →
            (forbidden keyword v = true ↔ overlooks members keyword v = true)) := by
  obtain ⟨target, htarget, hall⟩ := (source_succeeds_iff root validateFormats pointer).mp ⟨text, h⟩
  refine ⟨target, htarget, fun members hvisited => ?_⟩
  obtain ⟨hbody, hreference⟩ := hall _ hvisited
  constructor
  · intro v hv
    have hstr := hbody
    simp only [HasBody, hv] at hstr
    cases v with
    | str r =>
        obtain ⟨t, ht⟩ := hreference r hv
        exact ⟨r, t, rfl, ht⟩
    | null | bool _ | num _ | arr _ | obj _ => exact hstr.elim
  · intro href keyword hkeyword v hv
    have hsubs (sub : Json) (hsub : Applies members sub) : isSchemaLike sub = true :=
      isSchemaLike_of_hasBody (hall sub (hvisited.part ⟨members, rfl, href, hsub⟩)).1
    rw [forbidden_eq_overlooks hbody href hsubs hkeyword hv]

/-- A required name that is repeated is overlooked, a limit beside it is not forbidden. -/
theorem forbidden_iff_overlooks_required :
    let members : Json.Members := [("required", .arr [.str "a", .str "a"]), ("minProperties", .num (.int 1))]
    ∃ text, source (lone (.obj members)) true (definitionPointer "A") = .ok text
      ∧ (forbidden "required" (.arr [.str "a", .str "a"]) = true
        ↔ overlooks members "required" (.arr [.str "a", .str "a"]) = true) := by
  intro members
  have hsource : ∃ text, source (lone (.obj members)) true (definitionPointer "A") = .ok text := by
    unfold source link linkReference
    rw [resolveLocal?_lone]
    exact ⟨_, rfl⟩
  obtain ⟨text, htext⟩ := hsource
  obtain ⟨target, htarget, hall⟩ := forbidden_iff_overlooks htext
  obtain rfl := Option.some.inj ((resolveLocal?_lone _).symm.trans htarget)
  exact ⟨text, htext, (hall members .start).2 rfl "required" (by simp [supportedKeywords]) _ rfl⟩

/-- A constant that is a text, where a list belongs. -/
def textEnum : Json := .obj [("enum", .str "abc")]

/-- **A forbidden value for which there is a module**: its function asks a text for `some`. -/
theorem forbidden_enum_has_module :
    forbidden "enum" (.str "abc") = true
      ∧ ∃ l code text, link (lone textEnum) true (definitionPointer "A") = .ok (0, l)
        ∧ l.constants = ["\"abc\""] ∧ l.functions = [some code]
        ∧ opens ("if (!" ++ constantName 0 ++ ".some(function (v) \x7b return equal(data, v); \x7d))") ∈ code
        ∧ source (lone textEnum) true (definitionPointer "A") = .ok text := by
  have hlink : ∃ l code, link (lone textEnum) true (definitionPointer "A") = .ok (0, l)
      ∧ l.constants = ["\"abc\""] ∧ l.functions = [some code]
      ∧ opens ("if (!" ++ constantName 0 ++ ".some(function (v) \x7b return equal(data, v); \x7d))") ∈ code := by
    unfold link linkReference
    rw [resolveLocal?_lone]
    refine ⟨_, _, rfl, rfl, rfl, ?_⟩
    decide
  obtain ⟨l, code, hl, hconstants, hfunctions, hcheck⟩ := hlink
  have hsource : source (lone textEnum) true (definitionPointer "A") = .ok (Layout.render "  " (moduleCalls 0 l)) := by
    unfold source
    rw [hl]
    rfl
  exact ⟨rfl, l, code, _, hl, hconstants, hfunctions, hcheck, hsource⟩

end DecoderForge.Standalone
