import DecoderForge.Proofs.Types.Grouped
import DecoderForge.Proofs.Types.ObjectMembers

/-!
# DecoderForge — interfaces are read back

A type is read as one if neither a hint nor a pair of parentheses that do not belong together gets in the way.  In a
legible schema there are no hints, and only parentheses of the tree are taken away, so that every type of it is whole.
The members of an interface are then read off its text without any condition on the text.

## The architecture

* **`WholeGrouped`**, **`makes_wholeGrouped`** — grouped trees over whole words are among the predicates of what is
  made.
* **`Scope.Legible.stays_whole`** — in a legible schema nothing else comes in.
* **`interfaces_read_back`** — the run: every interface of a compiled schema.
-/

namespace DecoderForge.Types

/-! ## Whole trees -/

/-- Grouped trees over whole words. -/
def WholeGrouped (style : Style) (e : TypeExpr) : Prop := WellGrouped style e ∧ Built Whole CommentHead e

/-- Those among them that need no parentheses anywhere. -/
def WholeAtom (style : Style) (e : TypeExpr) : Prop := WellGroupedAtom style e ∧ Built Whole CommentHead e

section Whole

variable {style : Style} {e : TypeExpr}

theorem WholeGrouped.of_operand (h : Operand (WholeGrouped style) (WholeAtom style) e) :
    Operand (WellGrouped style) (WellGroupedAtom style) e ∧ Built Whole CommentHead e := by
  rcases h with ⟨hatom, hbuilt⟩ | ⟨inner, rfl, hgrouped, hbuilt⟩
  · exact ⟨.inl hatom, hbuilt⟩
  · exact ⟨.inr ⟨inner, rfl, hgrouped⟩, .paren hbuilt⟩

theorem WholeGrouped.of_contribution (h : Contribution (WholeGrouped style) (WholeAtom style) e) :
    Contribution (WellGrouped style) (WellGroupedAtom style) e ∧ Built Whole CommentHead e := by
  rcases h with h | ⟨es, rfl, hlength, hes⟩
  · obtain ⟨hoperand, hbuilt⟩ := of_operand h
    exact ⟨.inl hoperand, hbuilt⟩
  · exact ⟨.inr ⟨es, rfl, hlength, fun x hx => (hes x hx).1⟩, .join hlength fun x hx => (hes x hx).2⟩

theorem Built.of_paren {Word : List Char → Prop} {Head : MemberHead → Prop} {inner : TypeExpr}
    (h : Built Word Head (.paren inner)) : Built Word Head inner := by
  cases h with
  | paren h => exact h

theorem WholeGrouped.operand_parenthesize (h : WholeGrouped style e) :
    Operand (WholeGrouped style) (WholeAtom style) (e.parenthesize style) := by
  have hoperand := h.1.operand_parenthesize
  unfold TypeExpr.parenthesize at hoperand ⊢
  split
  · exact .inr ⟨e, rfl, h⟩
  · next hnone =>
    rw [if_neg hnone] at hoperand
    rcases hoperand with hatom | ⟨inner, rfl, hinner⟩
    · exact .inl ⟨hatom, h.2⟩
    · exact .inr ⟨inner, rfl, hinner, h.2.of_paren⟩

end Whole

/-- **Grouped trees over whole words are among the predicates of what is made.** -/
theorem makes_wholeGrouped (style : Style) :
    Makes style (fun _ => True) (fun d => Neutral d.toList) (fun head => NeutralHead head ∧ CommentHead head)
      (WholeGrouped style) (WholeAtom style) where
  plain h hsemicolon := ⟨(makes_grouped style).plain h hsemicolon,
    .word (whole_of_plain (fun c hc => plain_of_bare (h c hc)) hsemicolon)⟩
  quoted h := ⟨(makes_grouped style).quoted h, .word (whole_quoteChars style _)⟩
  head hname hdescription := ⟨(makes_grouped style).head hname hdescription, hidden_docText_docLines? _⟩
  array h := by
    obtain ⟨hoperand, hbuilt⟩ := WholeGrouped.of_operand h
    exact ⟨(makes_grouped style).array hoperand, .array hbuilt⟩
  tuple h hrest := by
    have hrest' := fun e he => WholeGrouped.of_operand (hrest e he)
    exact ⟨(makes_grouped style).tuple (fun e he => (h e he).1) fun e he => (hrest' e he).1,
      .tuple (fun e he => (h e he).2) fun e he => (hrest' e he).2⟩
  object {members index} hhead h hindex := by
    have hbuilt : ∀ e ∈ index, Built Whole CommentHead e := by
      intro e he
      rcases hindex e he with hwhole | ⟨es, rfl, hlength, hes⟩
      · exact hwhole.2
      · exact .join hlength fun x hx => (hes x hx).2
    refine ⟨(makes_grouped style).object (fun m hm => (hhead m hm).1) (fun m hm => (h m hm).1) fun e he => ?_,
      .object (fun m hm => (hhead m hm).2) (fun m hm => (h m hm).2) hbuilt⟩
    rcases hindex e he with hwhole | ⟨es, heq, hlength, hes⟩
    · exact .inl hwhole.1
    · exact .inr ⟨es, heq, hlength, fun x hx => (hes x hx).1⟩
  atom h := ⟨h.1.1, h.2⟩
  paren h := ⟨(makes_grouped style).paren h.1, .paren h.2⟩
  join hlength h := by
    have h' := fun e he => WholeGrouped.of_operand (h e he)
    exact ⟨(makes_grouped style).join hlength fun e he => (h' e he).1, .join hlength fun e he => (h' e he).2⟩
  meet hlength h := by
    have h' := fun e he => WholeGrouped.of_operand (h e he)
    exact ⟨(makes_grouped style).meet hlength fun e he => (h' e he).1, .meet hlength fun e he => (h' e he).2⟩
  parenthesize := WholeGrouped.operand_parenthesize
  strip {e} h := by
    obtain ⟨hcontribution, hbuilt⟩ := WholeGrouped.of_contribution h
    refine ⟨(makes_grouped style).strip hcontribution, ?_⟩
    rcases strip_cases hcontribution with heq | ⟨inner, rfl, heq⟩
    · rw [heq]
      exact hbuilt
    · rw [heq]
      exact hbuilt.of_paren

/-! ## Legible schemas -/

def isNoSemicolon (c : Char) : Bool := c != ';'

theorem noSemicolon_ofNat : ∀ n, 0x80 ≤ n → isNoSemicolon (Char.ofNat n) = true := by
  refine Text.holds_ofNat (fun c hc => ?_) rfl
  rw [isNoSemicolon, bne_iff_ne]
  rintro rfl
  exact absurd hc (by decide)

/-- Naming makes no semicolons. -/
theorem kept_isNoSemicolon : Name.Kept isNoSemicolon where
  wordPart c h := by
    rw [isNoSemicolon, bne_iff_ne]
    rintro rfl
    exact absurd h (by decide)
  underscore := rfl
  digit c h := by
    rw [isNoSemicolon, bne_iff_ne]
    rintro rfl
    exact absurd h (by decide)
  upper _ h := Text.holds_mapped noSemicolon_ofNat (by decide) (by decide) fun hlow =>
    Text.ascii_of_all (q := fun c => isNoSemicolon c = true → isNoSemicolon c.toUpper = true) (by decide) hlow h
  lower _ h := Text.holds_mapped noSemicolon_ofNat (by decide) (by decide) fun hlow =>
    Text.ascii_of_all (q := fun c => isNoSemicolon c = true → isNoSemicolon c.toLower = true) (by decide) hlow h

/-- A reference that is answered is answered with a whole word. -/
theorem whole_of_lookup {naming : Naming} {policy : CollisionPolicy} {schema : Json} {named : List Definition}
    (hnamed : definitionsOf naming policy schema = .ok named) {r name : String}
    (h : (referenceNames named).lookup r = some name) : Whole name.toList := by
  refine whole_of_plain (fun c hc => plain_of_bare (bare_of_lookup hnamed h c hc)) fun hsemicolon => ?_
  obtain ⟨d, hd, -, rfl⟩ := mem_referenceNames.mp (mem_of_lookup h)
  rcases definitionsOf_cases hnamed with rfl | ⟨definitions, -, henum⟩
  · exact absurd hd List.not_mem_nil
  · exact absurd (Definitions.kept_of_enumerate kept_isNoSemicolon henum d hd _ hsemicolon) (by decide)

/-- **In a legible schema nothing but whole trees comes in.** -/
theorem Scope.Legible.stays_whole {naming : Naming} {policy : CollisionPolicy} {schema : Json}
    {named : List Definition} (hnamed : definitionsOf naming policy schema = .ok named) {scope : Scope}
    (hnames : scope.names = referenceNames named) {s : Json} (h : scope.Legible s) :
    scope.Stays (fun _ => True) (fun d => Neutral d.toList) (WholeGrouped scope.style)
      (Relation.TransGen scope.Reads s) := by
  have S := h.stays fun r name hname => bare_of_lookup hnamed (hnames ▸ hname)
  refine ⟨S.step, S.brings, fun ht hint hfound => ?_, fun r name hname => ⟨S.name r name hname, ?_⟩⟩
  · rw [h.hint _ ht] at hfound
    exact absurd hfound (by simp)
  · exact .word (whole_of_lookup hnamed (hnames ▸ hname))

/-! ## Interfaces -/

/-- **Interfaces are read back.**  Every interface of a compiled schema is that of the schema around the definitions or
of a definition.  If this schema is legible, the texts of all types in it are read as one, so that the members that are
read off the body of the interface, however deep it stands, are those for its properties, in order, and then the one
for all others, each with its name, its mark and its type. -/
theorem interfaces_read_back {naming : Naming} {policy : CollisionPolicy} {options : Options} {rootName : String}
    {schema : Json} {named : List Definition} {ds : List Declaration}
    (hnamed : definitionsOf naming policy schema = .ok named)
    (hcompile : compile naming policy options rootName schema = .ok ds) {d : Declaration} (hd : d ∈ ds)
    {e : TypeExpr} (hbody : d.body = .interface e) :
    let scope : Scope := ⟨schema, options.style, referenceNames named⟩
    ∃ s ∈ container schema :: named.map Definition.schema, declare scope options d.name s = .ok d
      ∧ (scope.Legible s → ∃ members index, e = .object members index
        ∧ List.Forall₂ (IsMember options.style scope.expr s) (propertiesOf s) members
        ∧ (index.isSome = true ↔ s.get? "additionalProperties" ≠ some (.bool false) ∨ HasPatterns s)
        ∧ (members ≠ [] → ∀ i ∈ index, i = .unknown)
        ∧ ∀ depth : Nat,
          entries? (Layout.squeezed .code ((indentLines options.style.indentUnit)^[depth] (e.render options.style)))
            = some (entriesOf options.style members index)) := by
  intro scope
  have hread : ∀ s name, declare scope options name s = .ok d → scope.Legible s →
      ∃ members index, e = .object members index
        ∧ List.Forall₂ (IsMember options.style scope.expr s) (propertiesOf s) members
        ∧ (index.isSome = true ↔ s.get? "additionalProperties" ≠ some (.bool false) ∨ HasPatterns s)
        ∧ (members ≠ [] → ∀ i ∈ index, i = .unknown)
        ∧ ∀ depth : Nat,
          entries? (Layout.squeezed .code ((indentLines options.style.indentUnit)^[depth] (e.render options.style)))
            = some (entriesOf options.style members index) := by
    intro s name hdeclare hlegible
    have S := hlegible.stays_whole hnamed rfl
    have hwhole := (makes_wholeGrouped options.style).whole_declare S
      ⟨fun _ _ _ => trivial, fun _ _ => trivial, fun _ _ _ _ => trivial⟩ (fun t ht => .single ht) hdeclare
    rw [hbody] at hwhole
    have hrenders : scope.Renders s scope.expr e := .interface hdeclare hbody
    obtain ⟨members, index, rfl, hall, hsome, hunknown, hreads⟩ := members_of_objectType hrenders.objectType
    obtain ⟨-, hbuilt⟩ : WholeGrouped options.style (.object members index) := hwhole
    refine ⟨members, index, rfl, hall, hsome, hunknown, hreads ?_ ?_⟩
    -- what the reading asks of the texts holds in a tree over whole words
    · cases hbuilt with
      | object hhead hmembers hindex => exact fun m hm => whole_render options.style (hmembers m hm)
    · cases hbuilt with
      | object hhead hmembers hindex => exact fun i hi => whole_render options.style (hindex i hi)
  rcases declare_of_mem hnamed hcompile hd with hroot | ⟨definition, hdefinition, hdeclare⟩
  · obtain ⟨rfl, -⟩ := head_of_declare hroot
    exact ⟨_, List.mem_cons_self, hroot, hread _ _ hroot⟩
  · obtain ⟨hname, -⟩ := head_of_declare hdeclare
    refine ⟨_, List.mem_cons_of_mem _ (List.mem_map_of_mem hdefinition), ?_, hread _ _ hdeclare⟩
    rw [hname]
    exact hdeclare

end DecoderForge.Types
