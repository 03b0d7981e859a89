import DecoderForge.Proofs.Types.Made

/-!
# DecoderForge — the trees that the type compiler builds

A tree is built from words, and a vocabulary says which words and property names a schema may bring in;
whatever a vocabulary admits, the compiler builds nothing else.

## The architecture

* **`Built`** — trees over a vocabulary.
* **`Vocabulary.makes`** — trees over a vocabulary are among the predicates of what is made.
* **`Vocabulary.built_declare`** — the run: every declared type is built.
-/

namespace DecoderForge.Types

open Layout (isPlain)

/-- Trees from certain words, with certain names and comments at their members.  An operator stands
between two operands at least. -/
inductive Built (Word : List Char → Prop) (Head : MemberHead → Prop) : TypeExpr → Prop where
  | word {text : List Char} (h : Word text) : Built Word Head (.word text)
  | join {members : List TypeExpr} (hlength : 2 ≤ members.length)
      (h : ∀ e ∈ members, Built Word Head e) : Built Word Head (.join members)
  | meet {members : List TypeExpr} (hlength : 2 ≤ members.length)
      (h : ∀ e ∈ members, Built Word Head e) : Built Word Head (.meet members)
  | paren {inner : TypeExpr} (h : Built Word Head inner) : Built Word Head (.paren inner)
  | array {item : TypeExpr} (h : Built Word Head item) : Built Word Head (.array item)
  | tuple {items : List TypeExpr} {rest : Option TypeExpr} (h : ∀ e ∈ items, Built Word Head e)
      (hrest : ∀ e ∈ rest, Built Word Head e) : Built Word Head (.tuple items rest)
  | object {members : List (MemberHead × TypeExpr)} {index : Option TypeExpr}
      (hhead : ∀ m ∈ members, Head m.1) (h : ∀ m ∈ members, Built Word Head m.2)
      (hindex : ∀ e ∈ index, Built Word Head e) : Built Word Head (.object members index)

/-! ## Vocabularies -/

/-- Words and heads of members that do not depend on how a schema is written: plain words are among
them, allowed texts in quotes, the heads of members with allowed names and descriptions, and what is
left of a built tree without its outer parentheses. -/
structure Vocabulary (style : Style) (Allowed : String → Prop) (Word : List Char → Prop)
    (Head : MemberHead → Prop) : Prop where
  plain {text : List Char} (h : ∀ c ∈ text, isPlain c = true) : Word text
  quoted {s : String} (h : Allowed s) : Word (style.quoteChars s.toList)
  head {schema : Json} {name : String} {isOptional : Bool} (hname : Allowed name)
    (hdescription : ∀ d, schema.getString? "description" = some d → Allowed d) :
    Head ⟨docLines? schema, name, isOptional⟩
  strip {e : TypeExpr} (h : Built Word Head e) : Built Word Head (e.strip style)

/-- A schema whose texts are allowed, whatever they are for. -/
abbrev Admits (Allowed : String → Prop) (schema : Json) : Prop := Brings Allowed Allowed schema

section Vocabulary

variable {style : Style} {Allowed : String → Prop} {Word : List Char → Prop} {Head : MemberHead → Prop}

/-- An operand of built trees is built. -/
theorem Built.of_operand {e : TypeExpr} (h : Operand (Built Word Head) (Built Word Head) e) :
    Built Word Head e := by
  rcases h with h | ⟨inner, rfl, h⟩
  · exact h
  · exact .paren h

theorem Built.of_contribution {e : TypeExpr} (h : Contribution (Built Word Head) (Built Word Head) e) :
    Built Word Head e := by
  rcases h with h | ⟨es, rfl, hlength, h⟩
  · exact .of_operand h
  · exact .join hlength h

/-- **Trees over a vocabulary are among the predicates of what is made.**  Parentheses do not matter to them, so
that a built tree is also an atom. -/
theorem Vocabulary.makes (V : Vocabulary style Allowed Word Head) :
    Makes style Allowed Allowed Head (Built Word Head) (Built Word Head) where
  plain h _ := .word (V.plain fun c hc => plain_of_bare (h c hc))
  quoted h := .word (V.quoted h)
  head := V.head
  array h := .array (.of_operand h)
  tuple h hrest := .tuple h fun e he => .of_operand (hrest e he)
  object hhead h hindex := by
    refine .object hhead h fun e he => ?_
    rcases hindex e he with h | ⟨es, rfl, hlength, h⟩
    · exact h
    · exact .join hlength h
  atom h := h
  paren := .paren
  join hlength h := .join hlength fun e he => .of_operand (h e he)
  meet hlength h := .meet hlength fun e he => .of_operand (h e he)
  parenthesize {e} h := by
    unfold TypeExpr.parenthesize
    split
    · exact .inr ⟨e, rfl, h⟩
    · exact .inl h
  strip h := V.strip (.of_contribution h)

end Vocabulary

/-- The texts of a schema that stands in another. -/
theorem Admits.of_texts {Allowed : String → Prop} {root t : Json} (hroot : ∀ s ∈ root.texts, Allowed s)
    (ht : t = root ∨ Json.Inside t root) : Admits Allowed t := by
  have hallowed : ∀ s ∈ t.texts, Allowed s := by
    intro s hs
    rcases ht with rfl | hinside
    · exact hroot s hs
    · exact hroot s (hinside.texts_subset hs)
  have hstring : ∀ {s : String}, Json.Inside (.str s) t → Allowed s := fun h =>
    hallowed _ (h.texts_subset (List.mem_singleton.mpr rfl))
  refine ⟨⟨fun k v hk => ?_, fun s hs => hstring (inside_of_get? hs),
    fun values s hvalues hs => hstring (.trans (.item hs) (inside_of_get? hvalues))⟩, fun d hd => ?_⟩
  · unfold propertiesOf at hk
    cases hproperties : (t.get? "properties").bind Json.asMembers? with
    | none => rw [hproperties] at hk; exact absurd hk (by simp)
    | some members =>
        rw [hproperties] at hk
        have hinside := inside_of_get? (get?_of_asMembers? hproperties)
        exact hallowed k (hinside.texts_subset (Json.texts_subset_members hk List.mem_cons_self))
  · obtain ⟨v, hv, hstr⟩ := Option.bind_eq_some_iff.mp hd
    cases v with
    | str s =>
        obtain rfl := Option.some.inj hstr
        exact hstring (inside_of_get? hv)
    | _ => exact absurd hstr (by simp [Json.asString?])

/-! ## All levels -/

/-- Schemas among which the compiler stays, with texts that a vocabulary admits. -/
structure Scope.Domain (scope : Scope) (Allowed : String → Prop) (Word : List Char → Prop)
    (Good : Json → Prop) : Prop where
  step {s t : Json} (hs : Good s) (h : scope.Reads s t) : Good t
  admits {s : Json} (hs : Good s) : Admits Allowed s
  hint {s : Json} (hs : Good s) : ∀ h, s.getString? typeHintKey = some h → Word h.toList

/-- A body whose types are built. -/
def Body.IsBuilt (Word : List Char → Prop) (Head : MemberHead → Prop) : Body → Prop
  | .constEnum _ => False
  | .interface type => Built Word Head type
  | .alias type => Built Word Head type

/-- **Every declared type is built**, if the compiler stays in a domain from the parts of the declared
schema on.  Of the schema itself a type hint does not count. -/
theorem Vocabulary.built_declare {scope : Scope} {Allowed : String → Prop} {Word : List Char → Prop}
    {Head : MemberHead → Prop} {Good : Json → Prop}
    (V : Vocabulary scope.style Allowed Word Head) (D : scope.Domain Allowed Word Good)
    (hnames : ∀ r name, scope.names.lookup r = some name → ∀ c ∈ name.toList, isPlain c = true)
    {options : Options} (hoptions : options.enableConstEnums = false) {name : String} {schema : Json}
    (hadmits : Admits Allowed schema) (hreads : ∀ t, scope.Reads schema t → Good t) {d : Declaration}
    (h : declare scope options name schema = .ok d) :
    d.name = name ∧ d.doc = docLines? schema ∧ d.body.IsBuilt Word Head := by
  have S : scope.Stays Allowed Allowed (Built Word Head) Good :=
    { step := D.step
      brings := D.admits
      hint := fun hs hint hhint => .word (D.hint hs hint hhint)
      name := fun r name hname => .word (V.plain (hnames r name hname)) }
  have hsatisfies := V.makes.whole_declare S hadmits.toNames hreads h
  obtain ⟨hname, hdoc⟩ := head_of_declare h
  refine ⟨hname, hdoc, ?_⟩
  unfold declare at h
  split at h
  · next members hmembers =>
    unfold constEnum? at hmembers
    rw [hoptions] at hmembers
    exact absurd hmembers (by simp)
  split at h
  · obtain ⟨type, -, rfl⟩ := map_eq_ok h
    exact hsatisfies
  · obtain ⟨type, -, rfl⟩ := map_eq_ok h
    exact hsatisfies

end DecoderForge.Types
