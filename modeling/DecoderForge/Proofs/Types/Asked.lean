import DecoderForge.Proofs.Types.Mentions

/-!
# DecoderForge — what one level asks for

The type of a schema is computed from the types of some of the schemas inside it.  Which these are, and in
which order they are asked for, depends on the keywords alone: an answer is never looked at before the next
question, unless it is a fault.

## The architecture

* **`Asks`** — a computation that asks for the types of certain schemas in order.
* **`Asks.congr`**, **`Asks.answered`**, **`Asks.tooDeep`** — it depends on their types alone, a value needs
  all of them, and a reference that is nested too deep is in one of them.
* **`asked`** — the schemas that one level asks for, and **`asks_ownType`** — that it does.
-/

namespace DecoderForge.Types

/-! ## Questions in order -/

/-- A computation that asks for the types of certain schemas in order, and stops at the first fault.  A fault
of its own is none of references that are nested too deep. -/
inductive Asks {α : Type} : List Json → ((Json → Result) → Except Fault α) → Prop where
  | ok (a : α) : Asks [] fun _ => .ok a
  | fault (asked : List Json) {f : Fault} (hf : ∀ r, f ≠ .tooDeep r) : Asks asked fun _ => .error f
  | ask {t : Json} {rest : List Json} {next : TypeExpr → (Json → Result) → Except Fault α}
      (h : ∀ e, Asks rest (next e)) : Asks (t :: rest) fun rec => rec t >>= fun e => next e rec

namespace Asks

variable {α β : Type} {asked : List Json} {F : (Json → Result) → Except Fault α} {rec rec' : Json → Result}

/-- **Nothing else is looked at.** -/
theorem congr (h : Asks asked F) (hrec : ∀ t ∈ asked, rec t = rec' t) : F rec = F rec' := by
  induction h with
  | ok a => rfl
  | fault asked hf => rfl
  | @ask t rest next _ ih =>
      obtain ⟨hfirst, hrest⟩ := List.forall_mem_cons.mp hrec
      simp only [hfirst]
      exact congrArg _ (funext fun e => ih e hrest)

/-- **A value needs all answers.** -/
theorem answered (h : Asks asked F) {a : α} (hF : F rec = .ok a) : ∀ t ∈ asked, ∃ e, rec t = .ok e := by
  induction h with
  | ok a => simp
  | fault asked hf => exact absurd hF (by simp)
  | @ask t rest next _ ih =>
      obtain ⟨e, hfirst, hrest⟩ := bind_eq_ok hF
      exact List.forall_mem_cons.mpr ⟨⟨e, hfirst⟩, ih e hrest⟩

/-- **A reference that is nested too deep** is in one of the answers. -/
theorem tooDeep (h : Asks asked F) {r : String} (hF : F rec = .error (.tooDeep r)) :
    ∃ t ∈ asked, rec t = .error (.tooDeep r) := by
  induction h with
  | ok a => exact absurd hF (by simp)
  | fault asked hf => exact absurd (Except.error.inj hF) (hf r)
  | @ask t rest next _ ih =>
      cases hfirst : rec t with
      | error f =>
          simp only [hfirst, bind, Except.bind] at hF
          exact ⟨t, List.mem_cons_self, by rw [hfirst, Except.error.inj hF]⟩
      | ok e =>
          simp only [hfirst, bind, Except.bind] at hF
          obtain ⟨u, hu, hfault⟩ := ih e hF
          exact ⟨u, List.mem_cons_of_mem t hu, hfault⟩

/-! ## Putting questions together -/

theorem bind {asked' : List Json} {G : α → (Json → Result) → Except Fault β} (h : Asks asked F)
    (hG : ∀ a, Asks asked' (G a)) : Asks (asked ++ asked') fun rec => F rec >>= fun a => G a rec := by
  induction h with
  | ok a => exact hG a
  | fault asked hf => exact .fault _ hf
  | @ask t rest next _ ih =>
      have hassoc : (fun rec : Json → Result => (rec t >>= fun e => next e rec) >>= fun a => G a rec)
          = fun rec => rec t >>= fun e => next e rec >>= fun a => G a rec := by
        funext rec
        cases rec t <;> rfl
      rw [hassoc]
      exact .ask fun e => ih e

/-- What is done with a value asks nothing more. -/
theorem andThen {g : α → Except Fault β} (h : Asks asked F) (hg : ∀ a, Asks [] fun _ => g a) :
    Asks asked fun rec => F rec >>= g := by
  have hbind := h.bind hg
  rwa [List.append_nil] at hbind

theorem map (h : Asks asked F) (g : α → β) : Asks asked fun rec => (F rec).map g := by
  have heq : (fun rec => (F rec).map g) = fun rec => F rec >>= fun a => .ok (g a) := by
    funext rec
    cases F rec <;> rfl
  rw [heq]
  exact h.andThen fun a => .ok (g a)

theorem single (t : Json) : Asks [t] fun rec => rec t := by
  have heq : (fun rec : Json → Result => rec t) = fun rec => rec t >>= fun e => .ok e := by
    funext rec
    cases rec t <;> rfl
  rw [heq]
  exact .ask .ok

theorem collect {f : β → (Json → Result) → Except Fault α} {asks : β → List Json} :
    ∀ {l : List β}, (∀ b ∈ l, Asks (asks b) (f b)) →
      Asks (l.flatMap asks) fun rec => Types.collect (fun b => f b rec) l
  | [], _ => .ok []
  | b :: rest, h => by
      obtain ⟨hfirst, hrest⟩ := List.forall_mem_cons.mp h
      exact hfirst.bind fun a => (collect hrest).andThen fun as => .ok (a :: as)

end Asks

/-! ## The questions of a schema -/

/-- The schemas of `patternProperties`. -/
def patternsOf (schema : Json) : List Json :=
  (((schema.get? "patternProperties").bind Json.asMembers?).getD []).map Prod.snd

/-- The schemas that the type of members without a name is made from. -/
def askedByIndex (schema : Json) : List Json :=
  match schema.get? "additionalProperties" with
  | none | some (.bool true) => []
  | some (.bool false) => patternsOf schema
  | some sub => sub :: patternsOf schema

def askedByObject (schema : Json) : List Json := (propertiesOf schema).map Prod.snd ++ askedByIndex schema

def askedByArray (schema : Json) : List Json :=
  match schema.get? "items" with
  | none => []
  | some (.arr items) =>
    items ++ match schema.get? "additionalItems" with
      | none | some (.bool _) => []
      | some rest => [rest]
  | some item => [item]

/-- The schemas that the type for one word of `type` is made from. -/
def askedByName (schema : Json) : String → List Json
  | "array" => askedByArray schema
  | "object" => askedByObject schema
  | _ => []

def askedByBase (schema : Json) : List Json :=
  if (schema.get? "const").isSome || ((schema.get? "enum").bind Json.asItems?).isSome then []
  else (typeNames schema).flatMap (askedByName schema)

/-- The schemas in a list under a keyword. -/
def askedByList (schema : Json) (keyword : String) : List Json :=
  ((schema.get? keyword).bind Json.asItems?).getD []

/-- **The schemas that one level asks for**, in order. -/
def asked (schema : Json) : List Json :=
  askedByBase schema ++ askedByList schema "allOf" ++ askedByList schema "anyOf" ++ askedByList schema "oneOf"

/-- The type of a schema that is no reference, given those of the schemas inside it. -/
def ownType (style : Style) (rec : Json → Result) (schema : Json) : Result :=
  typeOf style (fun r => .error (.unresolved r)) rec schema

theorem typeOf_eq_ownType {style : Style} {schema : Json} (h : schema.get? "$ref" = none)
    (reference : String → Result) (rec : Json → Result) :
    typeOf style reference rec schema = ownType style rec schema := by
  unfold ownType typeOf
  cases schema with
  | obj members =>
      have hnone : Json.Members.get? members "$ref" = none := h
      simp only [hnone]
  | bool b => cases b <;> rfl
  | null | num _ | str _ | arr _ => rfl

section Level

variable {schema : Json}

theorem asks_indexBeside (style : Style) (hasProperties : Bool) (others : List TypeExpr) :
    Asks (patternsOf schema) fun rec => indexBeside style rec schema hasProperties others := by
  unfold patternsOf indexBeside
  cases (schema.get? "patternProperties").bind Json.asMembers? with
  | none =>
      refine (Asks.ok []).andThen fun types => ?_
      cases others ++ types <;> exact .ok _
  | some patterns =>
      have hall := Asks.collect (l := patterns) fun p _ => Asks.single p.2
      rw [Option.getD_some, List.map_eq_flatMap]
      refine hall.andThen fun types => ?_
      cases others ++ types <;> exact .ok _

theorem asks_indexType (style : Style) (hasProperties : Bool) :
    Asks (askedByIndex schema) fun rec => indexType style rec schema hasProperties := by
  unfold askedByIndex indexType
  cases schema.get? "additionalProperties" with
  | none => exact .ok _
  | some additional =>
      cases additional with
      | bool b =>
          cases b with
          | true => exact .ok _
          | false => exact asks_indexBeside style hasProperties []
      | _ => exact .ask fun e => asks_indexBeside style hasProperties [e]

theorem asks_objectType (style : Style) :
    Asks (askedByObject schema) fun rec => objectType style rec schema := by
  unfold askedByObject objectType
  have hmembers : Asks ((propertiesOf schema).flatMap fun p => [p.2])
      fun rec => collect (memberOf rec (requiredNames schema)) (propertiesOf schema) :=
    .collect fun p _ => (Asks.single p.2).andThen fun e => .ok _
  rw [List.map_eq_flatMap]
  exact hmembers.bind fun members => (asks_indexType style _).andThen fun index => .ok _

theorem asks_arrayType (style : Style) :
    Asks (askedByArray schema) fun rec => arrayType style rec schema := by
  unfold askedByArray arrayType
  cases schema.get? "items" with
  | none => exact .ok _
  | some v =>
      cases v with
      | arr items =>
          have hitems : Asks items fun rec => collect rec items := by
            have hall := Asks.collect (l := items) fun t _ => Asks.single t
            rwa [List.flatMap_singleton'] at hall
          refine hitems.bind fun members => ?_
          cases schema.get? "additionalItems" with
          | none => exact .ok _
          | some rest =>
              cases rest with
              | bool b => cases b <;> exact .ok _
              | _ => exact (Asks.single _).andThen fun e => .ok _
      | _ => exact (Asks.single _).andThen fun e => .ok _

theorem asks_namedType (style : Style) (name : String) :
    Asks (askedByName schema name) fun rec => namedType style rec schema name := by
  unfold namedType
  split
  case h_6 => exact asks_arrayType style
  case h_7 => exact asks_objectType style
  case h_8 => exact .fault _ (by simp)
  all_goals exact .ok _

theorem asks_baseType (style : Style) :
    Asks (askedByBase schema) fun rec => baseType style rec schema := by
  unfold askedByBase baseType
  cases schema.get? "const" with
  | some value => exact .ok _
  | none =>
      cases (schema.get? "enum").bind Json.asItems? with
      | some values => exact .ok _
      | none =>
          have hnames : Asks ((typeNames schema).flatMap (askedByName schema))
              fun rec => collect (namedType style rec schema) (typeNames schema) :=
            .collect fun name _ => asks_namedType style name
          simp only [Option.isSome_none, Bool.or_false, Bool.false_eq_true, if_false]
          cases htypes : typeNames schema with
          | nil => exact .ok _
          | cons first more =>
              rw [htypes] at hnames
              exact hnames.andThen fun members => .ok _

theorem asks_memberTypes (style : Style) (keyword : String) :
    Asks (askedByList schema keyword) fun rec => memberTypes style rec schema keyword := by
  unfold askedByList memberTypes
  cases (schema.get? keyword).bind Json.asItems? with
  | none => exact .ok _
  | some subs =>
      have hall := Asks.collect (l := subs) fun t _ => (Asks.single t).map (TypeExpr.parenthesize style)
      rw [List.flatMap_singleton'] at hall
      exact hall.andThen fun members => .ok (some members)

theorem asks_choiceType (style : Style) (keyword : String) :
    Asks (askedByList schema keyword) fun rec => choiceType style rec schema keyword := by
  unfold choiceType
  refine (asks_memberTypes style keyword).andThen fun members => ?_
  cases members <;> exact .ok _

theorem asks_partsOf (style : Style) : Asks (asked schema) fun rec => partsOf style rec schema := by
  unfold asked partsOf
  simp only [List.append_assoc]
  exact (asks_baseType style).bind fun base => (asks_memberTypes style "allOf").bind fun all =>
    (asks_choiceType style "anyOf").bind fun any => (asks_choiceType style "oneOf").andThen fun one => .ok _

/-- **One level asks for the schemas that its keywords name.** -/
theorem asks_ownType (style : Style) (h : schema.get? "$ref" = none) :
    Asks (asked schema) fun rec => ownType style rec schema := by
  unfold ownType typeOf
  cases schema with
  | obj members =>
      have hnone : Json.Members.get? members "$ref" = none := h
      simp only [hnone]
      exact (asks_partsOf style).map (meetOf style)
  | bool b => cases b <;> exact .ok _
  | null | num _ | str _ | arr _ => exact .fault _ (by simp)

/-- One level depends on the types of the schemas that it asks for. -/
theorem typeOf_congr {style : Style} {reference : String → Result} {rec rec' : Json → Result}
    (h : ∀ t ∈ asked schema, rec t = rec' t) :
    typeOf style reference rec schema = typeOf style reference rec' schema := by
  cases href : schema.get? "$ref" with
  | none =>
      rw [typeOf_eq_ownType href, typeOf_eq_ownType href]
      exact (asks_ownType style href).congr h
  | some v =>
      cases schema with
      | obj members =>
          have hsome : Json.Members.get? members "$ref" = some v := href
          unfold typeOf
          cases v <;> simp only [hsome]
      | _ => exact absurd href (by simp [Json.get?])

/-! ## Where the schemas stand -/

theorem part_of_mem_patternsOf {t : Json} (h : t ∈ patternsOf schema) : Part schema t := by
  unfold patternsOf at h
  cases hpatterns : (schema.get? "patternProperties").bind Json.asMembers? with
  | none => simp [hpatterns] at h
  | some patterns =>
      rw [hpatterns] at h
      obtain ⟨⟨k, t⟩, hmem, rfl⟩ := List.mem_map.mp h
      exact .pattern (get?_of_asMembers? hpatterns) hmem

theorem part_of_mem_askedByObject {t : Json} (h : t ∈ askedByObject schema) : Part schema t := by
  rcases List.mem_append.mp h with h | h
  · obtain ⟨⟨k, t⟩, hmem, rfl⟩ := List.mem_map.mp h
    exact .property hmem
  · unfold askedByIndex at h
    split at h
    · exact absurd h (by simp)
    · exact absurd h (by simp)
    · exact part_of_mem_patternsOf h
    · next sub _ _ hsub =>
      rcases List.mem_cons.mp h with rfl | h
      · exact .others hsub
      · exact part_of_mem_patternsOf h

theorem part_of_mem_askedByArray {t : Json} (h : t ∈ askedByArray schema) : Part schema t := by
  unfold askedByArray at h
  split at h
  · exact absurd h (by simp)
  · next items hitems =>
    rcases List.mem_append.mp h with h | h
    · exact .item hitems h
    · split at h
      · exact absurd h (by simp)
      · exact absurd h (by simp)
      · next rest _ hrest =>
        obtain rfl := List.mem_singleton.mp h
        exact .rest hrest
  · next item _ hitem =>
    obtain rfl := List.mem_singleton.mp h
    exact .items hitem

theorem part_of_mem_askedByList {t : Json} {keyword : String} (hkeyword : keyword ∈ ["allOf", "anyOf", "oneOf"])
    (h : t ∈ askedByList schema keyword) : Part schema t := by
  unfold askedByList at h
  cases hsubs : (schema.get? keyword).bind Json.asItems? with
  | none => simp [hsubs] at h
  | some subs =>
      rw [hsubs] at h
      exact .branch hkeyword (get?_of_asItems? hsubs) h

/-- **What is asked for is part of the schema.** -/
theorem part_of_mem_asked {t : Json} (h : t ∈ asked schema) : Part schema t := by
  unfold asked at h
  simp only [List.mem_append] at h
  rcases h with ((h | h) | h) | h
  · unfold askedByBase at h
    split at h
    · exact absurd h (by simp)
    · obtain ⟨name, -, h⟩ := List.mem_flatMap.mp h
      unfold askedByName at h
      split at h
      · exact part_of_mem_askedByArray h
      · exact part_of_mem_askedByObject h
      · exact absurd h (by simp)
  all_goals exact part_of_mem_askedByList (by simp) h

/-- Without a hint such a schema is its object type, but for parentheses. -/
theorem ownType_of_isInterface (style : Style) (rec : Json → Result) (h : isInterface schema = true) :
    ownType style rec schema
      = (objectType style rec schema).map fun e => (TypeExpr.union style [e]).strip style := by
  obtain ⟨habsent, hnames⟩ := absent_of_isInterface h
  have hnone : ∀ keyword ∈ noInterface, schema.get? keyword = none := habsent
  have hlists : ∀ keyword ∈ ["allOf", "anyOf", "oneOf"], memberTypes style rec schema keyword = .ok none := by
    intro keyword hkeyword
    unfold memberTypes
    rw [hnone keyword (by revert hkeyword; simp [noInterface]; tauto)]
    rfl
  have hbase : baseType style rec schema = (objectType style rec schema).map fun e =>
      some (TypeExpr.union style [e]) := by
    unfold baseType
    rw [hnone "const" (by simp [noInterface]), hnone "enum" (by simp [noInterface]), hnames]
    show (objectType style rec schema >>= _) >>= _ = _
    cases objectType style rec schema <;> rfl
  have hparts : partsOf style rec schema = (objectType style rec schema).map fun e =>
      [TypeExpr.union style [e]] := by
    unfold partsOf choiceType
    rw [hbase, hlists "allOf" (by simp), hlists "anyOf" (by simp), hlists "oneOf" (by simp)]
    cases objectType style rec schema <;> rfl
  cases schema with
  | obj members =>
      have href : Json.Members.get? members "$ref" = none := hnone "$ref" (by simp [noInterface])
      unfold ownType typeOf
      simp only [href, hparts]
      cases objectType style rec (.obj members) <;> rfl
  | _ => exact absurd h (by simp [isInterface])

end Level

end DecoderForge.Types
