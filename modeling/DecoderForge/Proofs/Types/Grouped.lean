import DecoderForge.Proofs.Schema.Identifiers
import DecoderForge.Proofs.Types.Operators
import DecoderForge.Proofs.Types.References

/-!
# DecoderForge — where types stand in parentheses

A choice or an intersection that is an operand itself has to stand in parentheses, or the operators around it
take it apart.  The compiler looks for operators in the text of the operand.  It finds one behind the first
part, whatever names and constants there are, as long as the descriptions in that part leave the reader where it
was.  An apostrophe in a description opens a string for it that nothing closes, and the operator stays hidden.

## The architecture

* **`Grouped`** — trees in which operands are no choices and no intersections, parentheses apart.
* **`hasTopLevelOperator_of_isCompound`** — an operator between the parts of a tree is found.
* **`strip_eq_self`** — nothing but parentheses around the whole is taken away.
* **`makes_grouped`** — grouped trees are among the predicates of what is made.
* **`grouped_of_compile`** — the run: every declared type is grouped, if descriptions are neutral.
-/

namespace DecoderForge.Types

open Layout (isPlain)

/-! ## Grouped trees -/

/-- A choice or an intersection: an operator stands outside all brackets. -/
def isCompound : TypeExpr → Bool
  | .join _ | .meet _ => true
  | _ => false

/-- A name, a keyword or a number, or a string literal. -/
def IsWord (style : Style) (text : List Char) : Prop :=
  (∀ c ∈ text, isBare c = true) ∨ ∃ s, text = style.quoteChars s

/-- Trees in which the parts of a choice or an intersection, the elements of an array and the rest of a tuple
are in parentheses if they are compound.  The type of the members that are not named is no operand, and may
be a choice among whole types. -/
inductive Grouped (style : Style) : TypeExpr → Prop where
  | word {text : List Char} (h : IsWord style text) : Grouped style (.word text)
  | join {members : List TypeExpr} (hlength : 2 ≤ members.length) (h : ∀ e ∈ members, Grouped style e)
      (hoperand : ∀ e ∈ members, isCompound e = false) : Grouped style (.join members)
  | meet {members : List TypeExpr} (hlength : 2 ≤ members.length) (h : ∀ e ∈ members, Grouped style e)
      (hoperand : ∀ e ∈ members, isCompound e = false) : Grouped style (.meet members)
  | paren {inner : TypeExpr} (h : Grouped style inner) : Grouped style (.paren inner)
  | array {item : TypeExpr} (h : Grouped style item) (hoperand : isCompound item = false) :
      Grouped style (.array item)
  | tuple {items : List TypeExpr} {rest : Option TypeExpr} (h : ∀ e ∈ items, Grouped style e)
      (hrest : ∀ e ∈ rest, Grouped style e) (hoperand : ∀ e ∈ rest, isCompound e = false) :
      Grouped style (.tuple items rest)
  | object {members : List (MemberHead × TypeExpr)} {index : Option TypeExpr}
      (h : ∀ m ∈ members, Grouped style m.2) (hindex : ∀ e ∈ index, Grouped style e) :
      Grouped style (.object members index)
  | choices {members : List (MemberHead × TypeExpr)} {types : List TypeExpr} (hlength : 2 ≤ types.length)
      (h : ∀ m ∈ members, Grouped style m.2) (htypes : ∀ e ∈ types, Grouped style e) :
      Grouped style (.object members (some (.join types)))

/-! ## What the compiler sees of a tree -/

/-- Members whose comment leaves the reader where it was. -/
def NeutralHead (head : MemberHead) : Prop := Neutral (docText head.doc)

theorem neutral_of_isWord {style : Style} {text : List Char} (h : IsWord style text) : Neutral text := by
  rcases h with h | ⟨s, rfl⟩
  · exact neutral_of_plain fun c hc => plain_of_bare (h c hc)
  · exact neutral_quoteChars style s

theorem neutral_render {style : Style} {e : TypeExpr} (h : Built (IsWord style) NeutralHead e) :
    Neutral (e.render style) :=
  composes_neutral.render (fun _ => neutral_of_isWord) (fun head h => ⟨h, neutral_keyText style head.name⟩) h

/-- Behind the first of several parts an operator is found. -/
theorem hasTopLevelOperator_render {style : Style} {sep : List Char}
    (hsep : ∀ rest, OperatorScan.findsOperator {} (sep ++ rest) = true) :
    ∀ {members : List TypeExpr}, 2 ≤ members.length → (∀ e ∈ members, Built (IsWord style) NeutralHead e) →
      hasTopLevelOperator (Text.joinWith sep (TypeExpr.renderAll style members)) = true
  | e :: _ :: _, _, h => hasTopLevelOperator_joinWith hsep (neutral_render (h e List.mem_cons_self))

/-- **An operator between the parts of a tree is found.** -/
theorem hasTopLevelOperator_of_isCompound {style : Style} {e : TypeExpr}
    (h : Built (IsWord style) NeutralHead e) (hcompound : isCompound e = true) :
    hasTopLevelOperator (e.render style) = true := by
  cases h with
  | join hlength h => exact hasTopLevelOperator_render (fun _ => rfl) hlength h
  | meet hlength h => exact hasTopLevelOperator_render (fun _ => rfl) hlength h
  | _ => exact absurd hcompound (by simp [isCompound])

/-! ## Parentheses around the whole -/

/-- A text that does not end in a parenthesis. -/
def Unclosed (text : List Char) : Prop := text.getLast? ≠ some ')'

theorem Unclosed.append {a b : List Char} (ha : Unclosed a) (hb : Unclosed b) : Unclosed (a ++ b) := by
  unfold Unclosed at ha hb ⊢
  rw [List.getLast?_append]
  cases hlast : b.getLast? with
  | none => exact ha
  | some c => rwa [hlast] at hb

theorem unclosed_concat (text : List Char) {c : Char} (h : c ≠ ')') : Unclosed (text ++ [c]) := by
  unfold Unclosed
  rw [List.getLast?_concat]
  exact fun hlast => h (Option.some.inj hlast)

/-- Nothing is taken away from a type whose text does not end in a parenthesis. -/
theorem strip_eq_self {style : Style} {e : TypeExpr} (h : Unclosed (e.render style)) : e.strip style = e := by
  unfold TypeExpr.strip
  split
  · rfl
  · next inner hinner =>
    rw [(eq_of_stripParens? hinner).1] at h
    exact absurd List.getLast?_concat h

/-- A word, or a type between brackets of its own. -/
def isAtom : TypeExpr → Bool
  | .word _ | .array _ | .tuple _ _ | .object _ _ => true
  | _ => false

theorem unclosed_of_isWord {style : Style} {text : List Char} (h : IsWord style text) : Unclosed text := by
  rcases h with h | ⟨s, rfl⟩
  · intro hlast
    exact absurd (h _ (List.mem_of_getLast? hlast)) (by decide)
  · have hmark : ∀ double, Layout.quoteOf double ≠ ')' := by decide
    unfold Style.quoteChars
    rw [Layout.quoteMark_eq]
    exact unclosed_concat _ (hmark _)

theorem unclosed_bracesText (unit : List Char) (members : List (List Char)) :
    Unclosed (bracesText unit members) := by
  unfold bracesText
  split
  · exact unclosed_concat ['{'] (by decide)
  · exact unclosed_concat _ (by decide)

theorem unclosed_array {style : Style} (item : TypeExpr) : Unclosed (TypeExpr.render style (.array item)) := by
  have hbrackets : item.render style ++ "[]".toList = (item.render style ++ ['[']) ++ [']'] := by simp
  rw [TypeExpr.render, hbrackets]
  exact unclosed_concat _ (by decide)

/-- **The text of an atom does not end in a parenthesis.** -/
theorem unclosed_of_isAtom {style : Style} {e : TypeExpr} (h : Grouped style e) (hatom : isAtom e = true) :
    Unclosed (e.render style) := by
  cases h with
  | word h => exact unclosed_of_isWord h
  | array _ _ => exact unclosed_array _
  | tuple _ _ _ => exact unclosed_concat _ (by decide)
  | object _ _ => exact unclosed_bracesText _ _
  | choices _ _ _ => exact unclosed_bracesText _ _
  | _ => exact absurd hatom (by simp [isAtom])

/-- The text of a choice does not end in a parenthesis if that of none of its members does. -/
theorem unclosed_join {style : Style} {members : List TypeExpr}
    (h : ∀ e ∈ members, Unclosed (e.render style)) : Unclosed (TypeExpr.render style (.join members)) := by
  rw [TypeExpr.render, renderAll_eq_map]
  exact Layout.joinWith_of_append (P := Unclosed) (by simp [Unclosed]) Unclosed.append
    (unclosed_concat " |".toList (by decide)) (List.forall_mem_map.mpr h)

/-! ## What is made -/

/-- Grouped trees in which every comment is neutral. -/
def WellGrouped (style : Style) (e : TypeExpr) : Prop := Grouped style e ∧ Built (IsWord style) NeutralHead e

/-- Those among them that need no parentheses anywhere. -/
def WellGroupedAtom (style : Style) (e : TypeExpr) : Prop := WellGrouped style e ∧ isAtom e = true

theorem isCompound_of_isAtom {e : TypeExpr} (h : isAtom e = true) : isCompound e = false := by
  cases e <;> simp_all [isAtom, isCompound]

/-- An operand is not compound. -/
theorem WellGrouped.of_operand {style : Style} {e : TypeExpr}
    (h : Operand (WellGrouped style) (WellGroupedAtom style) e) : WellGrouped style e ∧ isCompound e = false := by
  rcases h with ⟨h, hatom⟩ | ⟨inner, rfl, hgrouped, hbuilt⟩
  · exact ⟨h, isCompound_of_isAtom hatom⟩
  · exact ⟨⟨.paren hgrouped, .paren hbuilt⟩, rfl⟩

theorem WellGrouped.of_contribution {style : Style} {e : TypeExpr}
    (h : Contribution (WellGrouped style) (WellGroupedAtom style) e) : WellGrouped style e := by
  rcases h with h | ⟨es, rfl, hlength, hes⟩
  · exact (WellGrouped.of_operand h).1
  · exact ⟨.join hlength (fun e he => (hes e he).1.1) fun e he => isCompound_of_isAtom (hes e he).2,
      .join hlength fun e he => (hes e he).1.2⟩

/-- What stands between parentheses. -/
theorem WellGrouped.of_paren {style : Style} {inner : TypeExpr} (h : WellGrouped style (.paren inner)) :
    WellGrouped style inner := by
  obtain ⟨hgrouped, hbuilt⟩ := h
  cases hgrouped with
  | paren hgrouped =>
      cases hbuilt with
      | paren hbuilt => exact ⟨hgrouped, hbuilt⟩

/-- **Only parentheses of the tree are taken away**, for neither atoms nor choices among them end in one. -/
theorem strip_cases {style : Style} {e : TypeExpr}
    (h : Contribution (WellGrouped style) (WellGroupedAtom style) e) :
    e.strip style = e ∨ ∃ inner, e = .paren inner ∧ e.strip style = inner := by
  rcases h with (hatom | ⟨inner, rfl, -⟩) | ⟨es, rfl, -, hes⟩
  · exact .inl (strip_eq_self (unclosed_of_isAtom hatom.1.1 hatom.2))
  · unfold TypeExpr.strip
    split
    · exact .inl rfl
    · exact .inr ⟨inner, rfl, rfl⟩
  · exact .inl (strip_eq_self (unclosed_join fun e he => unclosed_of_isAtom (hes e he).1.1 (hes e he).2))

/-- **What is compound gets parentheses.** -/
theorem parenthesize_of_isCompound {style : Style} {e : TypeExpr} (h : WellGrouped style e)
    (hcompound : isCompound e = true) : e.parenthesize style = .paren e := by
  unfold TypeExpr.parenthesize
  rw [if_pos (hasTopLevelOperator_of_isCompound h.2 hcompound)]

/-- A type in parentheses where an operator is found is an operand. -/
theorem WellGrouped.operand_parenthesize {style : Style} {e : TypeExpr} (h : WellGrouped style e) :
    Operand (WellGrouped style) (WellGroupedAtom style) (e.parenthesize style) := by
  by_cases hcompound : isCompound e = true
  · exact .inr ⟨e, parenthesize_of_isCompound h hcompound, h⟩
  · unfold TypeExpr.parenthesize
    split
    · exact .inr ⟨e, rfl, h⟩
    · -- no operator and no need of one
      cases e with
      | join _ | meet _ => exact absurd rfl hcompound
      | paren inner => exact .inr ⟨inner, rfl, h.of_paren⟩
      | _ => exact .inl ⟨h, rfl⟩

/-- **Grouped trees are among the predicates of what is made**, whatever names and constants there are, if
descriptions are neutral. -/
theorem makes_grouped (style : Style) :
    Makes style (fun _ => True) (fun d => Neutral d.toList) NeutralHead (WellGrouped style)
      (WellGroupedAtom style) where
  plain h _ := ⟨⟨.word (.inl h), .word (.inl h)⟩, rfl⟩
  quoted _ := ⟨⟨.word (.inr ⟨_, rfl⟩), .word (.inr ⟨_, rfl⟩)⟩, rfl⟩
  head _ := neutral_docText
  array h := by
    obtain ⟨⟨hgrouped, hbuilt⟩, hoperand⟩ := WellGrouped.of_operand h
    exact ⟨⟨.array hgrouped hoperand, .array hbuilt⟩, rfl⟩
  tuple h hrest := by
    have hrest' := fun e he => WellGrouped.of_operand (hrest e he)
    exact ⟨⟨.tuple (fun e he => (h e he).1) (fun e he => (hrest' e he).1.1) fun e he => (hrest' e he).2,
      .tuple (fun e he => (h e he).2) fun e he => (hrest' e he).1.2⟩, rfl⟩
  object {members index} hhead h hindex := by
    have hbuilt : Built (IsWord style) NeutralHead (.object members index) := by
      refine .object hhead (fun m hm => (h m hm).2) fun e he => ?_
      rcases hindex e he with h | ⟨es, rfl, hlength, h⟩
      · exact h.2
      · exact .join hlength fun e he => (h e he).2
    refine ⟨⟨?_, hbuilt⟩, rfl⟩
    cases index with
    | none => exact .object (fun m hm => (h m hm).1) nofun
    | some e =>
        rcases hindex e rfl with hwhole | ⟨es, rfl, hlength, hes⟩
        · exact .object (fun m hm => (h m hm).1) fun e he => Option.mem_some.mp he ▸ hwhole.1
        · exact .choices hlength (fun m hm => (h m hm).1) fun e he => (hes e he).1
  atom h := h.1
  paren h := ⟨.paren h.1, .paren h.2⟩
  join hlength h := by
    have h' := fun e he => WellGrouped.of_operand (h e he)
    exact ⟨.join hlength (fun e he => (h' e he).1.1) fun e he => (h' e he).2,
      .join hlength fun e he => (h' e he).1.2⟩
  meet hlength h := by
    have h' := fun e he => WellGrouped.of_operand (h e he)
    exact ⟨.meet hlength (fun e he => (h' e he).1.1) fun e he => (h' e he).2,
      .meet hlength fun e he => (h' e he).1.2⟩
  parenthesize := WellGrouped.operand_parenthesize
  strip {e} h := by
    rcases strip_cases h with heq | ⟨inner, rfl, heq⟩
    · rw [heq]
      exact .of_contribution h
    · rw [heq]
      exact (WellGrouped.of_contribution h).of_paren

/-! ## Names of definitions -/

theorem bare_ofNat : ∀ n, 0x80 ≤ n → isBare (Char.ofNat n) = true :=
  Text.holds_ofNat (fun _ h => bare_of (p := fun c => decide (0x80 ≤ c.toNat)) (by decide) (by simpa using h)) rfl

/-- Naming keeps to characters without a meaning in type text. -/
theorem kept_isBare : Name.Kept isBare where
  wordPart _ := bare_of (by decide)
  underscore := rfl
  digit _ := bare_of (by decide)
  upper _ h := Text.holds_mapped bare_ofNat (by decide) (by decide) fun hlow =>
    Text.ascii_of_all (q := fun c => isBare c = true → isBare c.toUpper = true) (by decide) hlow h
  lower _ h := Text.holds_mapped bare_ofNat (by decide) (by decide) fun hlow =>
    Text.ascii_of_all (q := fun c => isBare c = true → isBare c.toLower = true) (by decide) hlow h

/-- A reference that is answered is answered with a bare word. -/
theorem bare_of_lookup {naming : Naming} {policy : CollisionPolicy} {schema : Json} {named : List Definition}
    (hnamed : definitionsOf naming policy schema = .ok named) {r name : String}
    (h : (referenceNames named).lookup r = some name) : ∀ c ∈ name.toList, isBare c = true := by
  obtain ⟨d, hd, -, rfl⟩ := mem_referenceNames.mp (mem_of_lookup h)
  rcases definitionsOf_cases hnamed with rfl | ⟨definitions, -, henum⟩
  · exact absurd hd List.not_mem_nil
  · exact Definitions.kept_of_enumerate kept_isBare henum d hd

/-! ## Whole schemas -/

/-- Whatever the type of a schema is made from has no type hint, and a neutral description if any.  The schema
itself is left out of account, unless its type is made from it again. -/
structure Scope.Legible (scope : Scope) (schema : Json) : Prop where
  hint : ∀ t, Relation.TransGen scope.Reads schema t → t.getString? typeHintKey = none
  description : ∀ t, Relation.TransGen scope.Reads schema t →
    ∀ d, t.getString? "description" = some d → Neutral d.toList

theorem Scope.Legible.stays {scope : Scope}
    (hnames : ∀ r name, scope.names.lookup r = some name → ∀ c ∈ name.toList, isBare c = true) {schema : Json}
    (h : scope.Legible schema) :
    scope.Stays (fun _ => True) (fun d => Neutral d.toList) (WellGrouped scope.style)
      (Relation.TransGen scope.Reads schema) where
  step hs ht := hs.tail ht
  brings hs := ⟨⟨fun _ _ _ => trivial, fun _ _ => trivial, fun _ _ _ _ => trivial⟩, h.description _ hs⟩
  hint hs hint hfound := by
    rw [h.hint _ hs] at hfound
    exact absurd hfound (by simp)
  name r name hname := ⟨.word (.inl (hnames r name hname)), .word (.inl (hnames r name hname))⟩

theorem Body.Satisfies.imp {P Q : TypeExpr → Prop} (h : ∀ e, P e → Q e) {body : Body} (hbody : body.Satisfies P) :
    body.Satisfies Q := by
  cases body with
  | constEnum _ => trivial
  | interface type => exact h type hbody
  | «alias» type => exact h type hbody

/-- **Where types stand in parentheses.**  Every declared type is made from the container or from a definition.
If all that it is made from has no type hint, and no description opens strings or brackets that it does not
close, the type is grouped: whatever is compound and an operand stands in parentheses.  The schemas below are
compiled to types that get parentheses if they are compound. -/
theorem grouped_of_compile {naming : Naming} {policy : CollisionPolicy} {options : Options} {rootName : String}
    {schema : Json} {named : List Definition} {ds : List Declaration}
    (hnamed : definitionsOf naming policy schema = .ok named)
    (hcompile : compile naming policy options rootName schema = .ok ds) {d : Declaration} (hd : d ∈ ds) :
    let scope : Scope := ⟨schema, options.style, referenceNames named⟩
    ∃ s ∈ container schema :: named.map Definition.schema, declare scope options d.name s = .ok d
      ∧ (scope.Legible s → d.body.Satisfies (Grouped options.style)
        ∧ ∀ t, Relation.TransGen scope.Reads s t → ∀ e, scope.expr t = .ok e → isCompound e = true →
          e.parenthesize options.style = .paren e) := by
  intro scope
  have hgrouped : ∀ s name, declare scope options name s = .ok d → scope.Legible s →
      d.body.Satisfies (Grouped options.style)
        ∧ ∀ t, Relation.TransGen scope.Reads s t → ∀ e, scope.expr t = .ok e → isCompound e = true →
          e.parenthesize options.style = .paren e := by
    intro s name hdeclare hlegible
    have S := hlegible.stays fun r name => bare_of_lookup hnamed
    have M := makes_grouped options.style
    refine ⟨?_, fun t ht e he => parenthesize_of_isCompound (M.whole_expr S ht e he)⟩
    have hwhole := M.whole_declare S ⟨fun _ _ _ => trivial, fun _ _ => trivial, fun _ _ _ _ => trivial⟩
      (fun t ht => .single ht) hdeclare
    exact hwhole.imp fun _ h => h.1
  rcases declare_of_mem hnamed hcompile hd with hroot | ⟨definition, hdefinition, hdeclare⟩
  · obtain ⟨rfl, -⟩ := head_of_declare hroot
    exact ⟨_, List.mem_cons_self, hroot, hgrouped _ _ hroot⟩
  · obtain ⟨hname, -⟩ := head_of_declare hdeclare
    refine ⟨_, List.mem_cons_of_mem _ (List.mem_map_of_mem hdefinition), ?_, hgrouped _ _ hdeclare⟩
    rw [hname]
    exact hdeclare

/-! ## Schemas whose values are all legible -/

/-- A definition stands in the schema. -/
theorem inside_of_mem_named {naming : Naming} {policy : CollisionPolicy} {schema : Json} {named : List Definition}
    (hnamed : definitionsOf naming policy schema = .ok named) {d : Definition} (hd : d ∈ named) :
    Json.Inside d.schema schema := by
  rcases definitionsOf_cases hnamed with rfl | ⟨definitions, hentries, henum⟩
  · exact absurd hd List.not_mem_nil
  · have hentry : (d.key, d.schema) ∈ definitions.entries := by
      rw [← Definitions.entries_of_enumerate henum]
      exact List.mem_map_of_mem hd
    exact .trans (.member hentry) (inside_of_get? hentries)

/-- Whatever is declared stands in the schema, the container apart. -/
theorem inside_of_reads {naming : Naming} {policy : CollisionPolicy} {schema : Json} {named : List Definition}
    (hnamed : definitionsOf naming policy schema = .ok named) {scope : Scope} (hroot : scope.root = schema)
    {s t : Json} (hs : s ∈ container schema :: named.map Definition.schema)
    (h : Relation.TransGen scope.Reads s t) : t = schema ∨ Json.Inside t schema := by
  subst hroot
  induction h with
  | @single t h =>
      rcases List.mem_cons.mp hs with rfl | hs
      · cases h with
        | part hpart =>
            refine .inr ?_
            have hinside := hpart.inside
            cases hschema : scope.root with
            | obj members =>
                rw [hschema] at hinside
                exact hinside.of_subset rfl (List.filter_subset_self _)
            | _ =>
                rw [hschema] at hinside
                exact absurd hinside Json.not_inside_nil
        | target _ _ _ hresolve => exact Json.inside_of_resolveLocal? hresolve
      · obtain ⟨d, hd, rfl⟩ := List.mem_map.mp hs
        exact Scope.Reads.inside (.inr (inside_of_mem_named hnamed hd)) h
  | tail _ h ih => exact Scope.Reads.inside ih h

/-- If no value in a schema has a hint or a description that is not neutral, all that is declared is legible. -/
theorem legible_of_values {naming : Naming} {policy : CollisionPolicy} {schema : Json} {named : List Definition}
    (hnamed : definitionsOf naming policy schema = .ok named) {scope : Scope} (hroot : scope.root = schema)
    (hvalues : ∀ t ∈ schema.values, t.getString? typeHintKey = none
      ∧ ∀ d ∈ t.getString? "description", Neutral d.toList)
    {s : Json} (hs : s ∈ container schema :: named.map Definition.schema) : scope.Legible s := by
  have hmem : ∀ t, Relation.TransGen scope.Reads s t → t ∈ schema.values := by
    intro t ht
    rcases inside_of_reads hnamed hroot hs ht with rfl | hinside
    · exact Json.mem_values_self _
    · exact hinside.values_subset (Json.mem_values_self t)
  exact ⟨fun t ht => (hvalues t (hmem t ht)).1, fun t ht d hd => (hvalues t (hmem t ht)).2 d hd⟩

/-! ## A description with an apostrophe -/

/-- A described property. -/
def describedText (description : String) : Json :=
  .obj [("type", .str "string"), ("description", .str description)]

/-- Items that are objects with one property, or `null`. -/
def nullableItems (key description : String) : Json :=
  .obj [("type", .str "array"), ("items", .obj [("type", .arr [.str "object", .str "null"]),
    ("additionalProperties", .bool false), ("properties", .obj [(key, describedText description)])])]

/-- A schema with that definition. -/
def nullableSchema (key description : String) : Json :=
  .obj [(definitionsKey, .obj [("A", nullableItems key description)])]

/-- The type of such items. -/
def nullableItem (key description : String) : TypeExpr :=
  .join [.object [(⟨some [description.toList], key, true⟩, .ofString "string")] none, .ofString "null"]

theorem definitionsOf_nullableSchema (key description : String) :
    definitionsOf {} .error (nullableSchema key description)
      = .ok [⟨"A", "A", nullableItems key description⟩] := by
  have hraw : Naming.rawName "A" (nullableItems key description) = "A" := rfl
  have hname : Naming.derive {} "A" (nullableItems key description) = .ok "A" := by
    rw [Naming.derive, hraw]
    rfl
  have henum : Definitions.enumerateFrom {} ⟨.error, []⟩ [("A", nullableItems key description)]
      = .ok [⟨"A", "A", nullableItems key description⟩] := by
    rw [Definitions.enumerateFrom, hname]
    rfl
  show (Definitions.enumerateFrom {} ⟨.error, []⟩ [("A", nullableItems key description)]).mapError _ = _
  rw [henum]
  rfl

/-- Two types with different texts. -/
theorem union_pair {style : Style} {e f : TypeExpr} (h : f.render style ≠ e.render style) :
    TypeExpr.union style [e, f] = .join [e, f] := by
  simp [TypeExpr.union, TypeExpr.distinctBy, h]

/-- The declarations of the schema, if its description is a comment of one line. -/
theorem compile_nullableSchema {key description : String}
    (hdoc : docLines? (describedText description) = some [description.toList]) :
    compile {} .error {} TypeCompiler.containerName (nullableSchema key description)
      = .ok [⟨TypeCompiler.containerName, none, .alias .unknown⟩,
        ⟨"A", none, .alias (.array ((nullableItem key description).parenthesize {}))⟩] := by
  obtain ⟨item, hitem⟩ : ∃ item : TypeExpr, item
      = .object [(⟨docLines? (describedText description), key, true⟩, .ofString "string")] none := ⟨_, rfl⟩
  have hhead : (item.render {}).head? = some '{' := by
    rw [hitem]
    rfl
  have hunion : TypeExpr.union {} [item, .ofString "null"] = .join [item, .ofString "null"] := by
    refine union_pair fun h => ?_
    rw [← h] at hhead
    exact absurd hhead (by decide)
  have hunclosed : Unclosed (item.render {}) := by
    rw [hitem]
    exact unclosed_bracesText _ _
  have hstrip : TypeExpr.strip {} (.join [item, .ofString "null"]) = .join [item, .ofString "null"] :=
    strip_eq_self (unclosed_join (by simpa using ⟨hunclosed, unclosed_concat "nul".toList (by decide)⟩))
  have harray : ∀ e : TypeExpr, TypeExpr.strip {} (.array e) = .array e := fun e =>
    strip_eq_self (unclosed_array e)
  obtain ⟨scope, hscope⟩ : ∃ scope : Scope, scope = ⟨nullableSchema key description, {},
      referenceNames [⟨"A", "A", nullableItems key description⟩]⟩ := ⟨_, rfl⟩
  have hdeclare : declare scope {} "A" (nullableItems key description)
      = .ok ⟨"A", none, .alias (.array ((nullableItem key description).parenthesize {}))⟩ := by
    have hraw : declare scope {} "A" (nullableItems key description)
        = .ok ⟨"A", none, .alias (TypeExpr.strip {} (.array ((TypeExpr.strip {} (TypeExpr.union {}
          [.object [(⟨docLines? (describedText description), key, true⟩, .ofString "string")] none,
            .ofString "null"])).parenthesize {})))⟩ := by
      rw [hscope]
      rfl
    rw [hraw, ← hitem, hunion, hstrip, harray, hitem, hdoc]
    rfl
  unfold compile
  rw [definitionsOf_nullableSchema]
  rw [hscope] at hdeclare
  simp only [bind, Except.bind, if_true, collect, hdeclare]
  rfl

/-- A neutral description and a name with an apostrophe: the items are in parentheses, and the type is grouped. -/
theorem grouped_nullableItem :
    compile {} .error {} TypeCompiler.containerName (nullableSchema "it's" "(a | b)")
        = .ok [⟨TypeCompiler.containerName, none, .alias .unknown⟩,
          ⟨"A", none, .alias (.array (.paren (nullableItem "it's" "(a | b)")))⟩]
      ∧ Grouped {} (.array (.paren (nullableItem "it's" "(a | b)"))) := by
  have hnamed := definitionsOf_nullableSchema "it's" "(a | b)"
  have hdoc : docLines? (describedText "(a | b)") = some ["(a | b)".toList] :=
    docLines?_of_plain rfl (by decide : _ = "(a | b)".toList) rfl (by decide)
  have hfound : hasTopLevelOperator ((nullableItem "it's" "(a | b)").render {}) = true := by decide
  have hparen : (nullableItem "it's" "(a | b)").parenthesize {} = .paren (nullableItem "it's" "(a | b)") := by
    rw [TypeExpr.parenthesize, hfound]
    rfl
  have hcompile := @compile_nullableSchema "it's" _ hdoc
  rw [hparen] at hcompile
  obtain ⟨s, hs, -, hgrouped⟩ := grouped_of_compile hnamed hcompile (List.mem_cons_of_mem _ List.mem_cons_self)
  exact ⟨hcompile, (hgrouped (legible_of_values hnamed rfl (by decide) hs)).1⟩

/-- An apostrophe in a description: no value has a hint, and the items are a choice without parentheses. -/
theorem apostrophe_hides_operator :
    compile {} .error {} TypeCompiler.containerName (nullableSchema "a" "it's")
        = .ok [⟨TypeCompiler.containerName, none, .alias .unknown⟩,
          ⟨"A", none, .alias (.array (nullableItem "a" "it's"))⟩]
      ∧ (∀ t ∈ (nullableSchema "a" "it's").values, t.getString? typeHintKey = none)
      ∧ isCompound (nullableItem "a" "it's") = true
      ∧ ¬ Grouped {} (.array (nullableItem "a" "it's"))
      ∧ (⟨"A", none, .alias (.array (nullableItem "a" "it's"))⟩ : Declaration).source {}
        = "export type A = \x7b\n  /**\n   * it's\n   */\n  a?: string;\n\x7d | null[];" := by
  have hdoc : docLines? (describedText "it's") = some ["it's".toList] :=
    docLines?_of_plain rfl (by decide : _ = "it's".toList) rfl (by decide)
  have hhidden : hasTopLevelOperator ((nullableItem "a" "it's").render {}) = false := by decide
  have hbare : (nullableItem "a" "it's").parenthesize {} = nullableItem "a" "it's" := by
    rw [TypeExpr.parenthesize, hhidden]
    rfl
  have hcompile := @compile_nullableSchema "a" _ hdoc
  rw [hbare] at hcompile
  refine ⟨hcompile, by decide, rfl, fun h => ?_, ?_⟩
  · cases h with
    | array _ hoperand => exact absurd hoperand (by decide)
  · have htext : Body.text {} "A".toList (.alias (.array (nullableItem "a" "it's")))
        = "export type A = \x7b\n  /**\n   * it's\n   */\n  a?: string;\n\x7d | null[];".toList := by
      decide
    show String.ofList ([] ++ _) = _
    rw [htext, List.nil_append, String.ofList_toList]

end DecoderForge.Types
