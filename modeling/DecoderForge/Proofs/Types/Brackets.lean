import DecoderForge.Proofs.Types.Parentheses

/-!
# DecoderForge — brackets of declarations

The text of a declaration is put together from words and from pieces between brackets.  Whatever a
schema says, as many brackets open as close and no string or comment stays open.  That the brackets
also match depends on the parentheses in the texts of the schema, which are counted where outer
parentheses are taken away.

## The architecture

* **`Composes.render`** — what composes holds of every tree over words of which it holds.
* **`levelVocabulary`** — any schema: the text of every type is level.
* **`closedVocabulary`** — a schema with even texts: the brackets of every type match.
-/

namespace DecoderForge.Types

open Layout

/-! ## Composition -/

/-- What holds of plain text, of texts one after another, of text in brackets and of indented text. -/
structure Composes (P : List Char → Prop) : Prop where
  plain {text : List Char} (h : ∀ c ∈ text, isPlain c = true) : P text
  append {a b : List Char} (ha : P a) (hb : P b) : P (a ++ b)
  parens {text : List Char} (h : P text) : P ('(' :: text ++ [')'])
  square {text : List Char} (h : P text) : P ('[' :: text ++ [']'])
  braces {text : List Char} (h : P text) : P ('{' :: text ++ ['}'])
  indent {style : Style} {text : List Char} (h : P text) : P (indentLines style.indentUnit text)

theorem composes_level : Composes Level where
  plain h := (quiet_of_plain h).level
  append := Level.append
  parens := Level.parens
  square := Level.square
  braces := Level.braces
  indent h := h.imp fun _ hw => ⟨lexes_indentLines (Style.blank_indentUnit _) hw.1, hw.2⟩

theorem composes_closed : Composes Closed where
  plain h := (quiet_of_plain h).closed
  append := Closed.append
  parens := Closed.parens
  square := Closed.square
  braces := Closed.braces
  indent h := h.imp fun _ hw => ⟨lexes_indentLines (Style.blank_indentUnit _) hw.1, hw.2⟩

/-- An even text between a parenthesis of either kind, or between brackets that are none. -/
theorem Even.between {text : List Char} (h : Even text) {o c : Char} (hpair : Even [o, c]) :
    Even (o :: text ++ [c]) := by
  unfold Even at h hpair ⊢
  simp only [List.count_cons, List.count_append, List.count_nil] at hpair ⊢
  omega

theorem composes_even : Composes Even where
  plain := even_of_plain
  append := Even.append
  parens h := h.between rfl
  square h := h.between rfl
  braces h := h.between rfl
  indent h := even_indentLines (Style.blank_indentUnit _) h

namespace Composes

variable {P : List Char → Prop}

theorem nil (C : Composes P) : P [] := C.plain (by decide)

/-- A pair of square brackets without anything inside. -/
theorem pair (C : Composes P) : P "[]".toList := C.square C.nil

theorem joinWith (C : Composes P) {sep : List Char} (hsep : ∀ c ∈ sep, isPlain c = true)
    {texts : List (List Char)} (h : ∀ t ∈ texts, P t) : P (Text.joinWith sep texts) :=
  joinWith_of_append C.nil C.append (C.plain hsep) h

/-- Members between braces. -/
theorem bracesText (C : Composes P) {style : Style} {members : List (List Char)}
    (h : ∀ m ∈ members, P m) : P (bracesText style.indentUnit members) := by
  have hnewline : P ['\n'] := C.plain (by decide)
  unfold Types.bracesText
  split
  · exact C.braces C.nil
  · have hlines : P (members.flatMap fun m => indentLines style.indentUnit m ++ ['\n']) :=
      flatMap_of_append C.nil C.append fun m hm => C.append (C.indent (h m hm)) hnewline
    exact C.braces (C.append hnewline hlines)

/-- The text of a member. -/
theorem memberText (C : Composes P) {style : Style} {head : MemberHead} {type : List Char}
    (hdoc : P (docText head.doc)) (hkey : P (keyText style head.name)) (htype : P type) :
    P (memberText style head type) := by
  have hmark : P (if head.isOptional then ['?'] else []) := by
    split
    · exact C.plain (by decide)
    · exact C.nil
  exact C.append (C.append (C.append (C.append (C.append hdoc hkey) hmark) (C.plain (by decide))) htype)
    (C.plain (by decide))

/-- The text of the member that stands for all others. -/
theorem indexText (C : Composes P) {type : List Char} (htype : P type) : P (indexText type) := by
  have hinner : P "k: string".toList := C.plain (by decide)
  have hname : P "[k: string]".toList := C.square hinner
  have hcolon : P ": ".toList := C.plain (by decide)
  exact C.append (C.append (C.append hname hcolon) htype) (C.plain (by decide))

end Composes

/-! ## Trees -/

theorem renderAll_eq_map (style : Style) : ∀ es : List TypeExpr,
    TypeExpr.renderAll style es = es.map (TypeExpr.render style)
  | [] => rfl
  | e :: es => by rw [TypeExpr.renderAll, renderAll_eq_map style es, List.map_cons]

theorem renderMembers_eq_map (style : Style) : ∀ members : List (MemberHead × TypeExpr),
    TypeExpr.renderMembers style members
      = members.map fun m => Types.memberText style m.1 (m.2.render style)
  | [] => rfl
  | (_, _) :: members => by
      rw [TypeExpr.renderMembers, renderMembers_eq_map style members, List.map_cons]

/-- **What composes holds of every tree** over words and heads of which it holds. -/
theorem Composes.render {P : List Char → Prop} (C : Composes P) {style : Style}
    {Word : List Char → Prop} {Head : MemberHead → Prop} (hword : ∀ t, Word t → P t)
    (hhead : ∀ head, Head head → P (docText head.doc) ∧ P (keyText style head.name)) {e : TypeExpr}
    (h : Built Word Head e) : P (e.render style) := by
  induction h with
  | word h => exact hword _ h
  | join _ _ ih =>
      rw [TypeExpr.render, renderAll_eq_map]
      exact C.joinWith (by decide) (List.forall_mem_map.mpr ih)
  | meet _ _ ih =>
      rw [TypeExpr.render, renderAll_eq_map]
      exact C.joinWith (by decide) (List.forall_mem_map.mpr ih)
  | paren _ ih =>
      rw [TypeExpr.render]
      exact C.parens ih
  | array _ ih =>
      rw [TypeExpr.render]
      exact C.append ih C.pair
  | @tuple items rest _ _ ih ihrest =>
      have hrest : ∀ t ∈ TypeExpr.renderRest style rest, P t := by
        cases rest with
        | none => simp [TypeExpr.renderRest]
        | some e =>
            refine List.forall_mem_singleton.mpr ?_
            exact C.append (C.append (C.plain (by decide)) (ihrest e rfl)) C.pair
      rw [TypeExpr.render, renderAll_eq_map]
      refine C.square (C.joinWith (by decide) fun t ht => ?_)
      exact (List.mem_append.mp ht).elim (List.forall_mem_map.mpr ih t) (hrest t)
  | @object members index hheads _ _ ih ihindex =>
      have hindex : ∀ t ∈ TypeExpr.renderIndex style index, P t := by
        cases index with
        | none => simp [TypeExpr.renderIndex]
        | some e => exact List.forall_mem_singleton.mpr (C.indexText (ihindex e rfl))
      have hmember : ∀ m ∈ members, P (Types.memberText style m.1 (m.2.render style)) := fun m hm =>
        C.memberText (hhead m.1 (hheads m hm)).1 (hhead m.1 (hheads m hm)).2 (ih m hm)
      rw [TypeExpr.render, renderMembers_eq_map]
      refine C.bracesText fun t ht => ?_
      exact (List.mem_append.mp ht).elim (List.forall_mem_map.mpr hmember t) (hindex t)

/-! ## Outer parentheses -/

/-- What is taken away around a text is one pair of parentheses. -/
theorem eq_of_stripParens? {text inner : List Char} (h : stripParens? text = some inner) :
    text = '(' :: inner ++ [')'] ∧ balanced inner = true := by
  unfold stripParens? at h
  split at h
  · next rest =>
    split at h
    · next hparens =>
      obtain rfl := Option.some.inj h
      rw [Bool.and_eq_true] at hparens
      have hlast : rest.getLast? = some ')' := by simpa using hparens.1
      obtain ⟨init, rfl⟩ := List.getLast?_eq_some_iff.mp hlast
      rw [List.dropLast_concat] at hparens ⊢
      exact ⟨rfl, hparens.2⟩
    · exact absurd h (by simp)
  · exact absurd h (by simp)

/-- A word is all that a level text can become without its outer parentheses. -/
theorem level_of_stripParens? {text inner : List Char} (h : Level text)
    (hstrip : stripParens? text = some inner) : Level inner := by
  obtain ⟨rfl, -⟩ := eq_of_stripParens? hstrip
  exact h.of_parens

/-- **What is read of a text in front of another.**  Where all parentheses match, those of the front do
not close more than are open, and the others go on from there. -/
theorem balancedFrom_append : ∀ {front : List Char} {depth : Nat} {rest : List Char},
    balancedFrom depth (front ++ rest) = true →
      ∃ depth', depth' + front.count ')' = depth + front.count '(' ∧ balancedFrom depth' rest = true
  | [], depth, rest, h => ⟨depth, rfl, h⟩
  | c :: front, depth, rest, h => by
      rw [List.cons_append, balancedFrom.eq_def] at h
      simp only [beq_iff_eq] at h
      rw [List.count_cons, List.count_cons]
      by_cases hopen : c = '('
      · subst hopen
        rw [if_pos rfl] at h
        obtain ⟨depth', hdepth, hrest⟩ := balancedFrom_append h
        refine ⟨depth', ?_, hrest⟩
        simp
        omega
      by_cases hclose : c = ')'
      · subst hclose
        rw [if_neg hopen, if_pos rfl] at h
        cases depth with
        | zero => exact absurd h (by simp)
        | succ depth =>
            obtain ⟨depth', hdepth, hrest⟩ := balancedFrom_append h
            refine ⟨depth', ?_, hrest⟩
            simp
            omega
      · rw [if_neg hopen, if_neg hclose] at h
        obtain ⟨depth', hdepth, hrest⟩ := balancedFrom_append h
        refine ⟨depth', ?_, hrest⟩
        simp [hopen, hclose]
        omega

/-- Behind an even text nothing is open that could be closed. -/
theorem not_balanced_of_even {front rest : List Char} (h : Even front) :
    balanced (front ++ ')' :: rest) = false := by
  cases hbalanced : balanced (front ++ ')' :: rest) with
  | false => rfl
  | true =>
      obtain ⟨depth, hdepth, hrest⟩ := balancedFrom_append hbalanced
      obtain rfl : depth = 0 := by
        unfold Even at h
        omega
      exact absurd hrest (by simp [balancedFrom])

/-- Where a tree over even words begins with a parenthesis, the one that belongs to it stands behind an
even text, and at the end only if the tree has them around the whole. -/
theorem paren_front {style : Style} {Word : List Char → Prop} {Head : MemberHead → Prop}
    (hword : ∀ t, Word t → Even t ∧ t.head? ≠ some '(')
    (hhead : ∀ head, Head head → Even (docText head.doc) ∧ Even (keyText style head.name)) {e : TypeExpr}
    (h : Built Word Head e) : ∀ {rest : List Char}, e.render style = '(' :: rest →
      ∃ front more, rest = front ++ ')' :: more ∧ Even front ∧ (more = [] → ∃ inner, e = .paren inner) := by
  -- an operand in front of an operator
  have hoperand : ∀ {members : List TypeExpr} {sep rest : List Char}, sep ≠ [] → sep.head? ≠ some '(' →
      2 ≤ members.length →
      (∀ m ∈ members, ∀ {rest : List Char}, m.render style = '(' :: rest →
        ∃ front more, rest = front ++ ')' :: more ∧ Even front ∧ (more = [] → ∃ inner, m = .paren inner)) →
      Text.joinWith sep (members.map (TypeExpr.render style)) = '(' :: rest →
      ∃ front more, rest = front ++ ')' :: more ∧ Even front ∧ more ≠ [] := by
    intro members sep rest hsep hhead hlength ih htext
    match members, hlength, ih, htext with
    | m :: n :: others, _, ih, htext =>
        have hjoined : m.render style ++ (sep ++ Text.joinWith sep ((n :: others).map (TypeExpr.render style)))
            = '(' :: rest := by
          rw [← htext]
          simp [Text.joinWith]
        cases hm : m.render style with
        | nil =>
            rw [hm] at hjoined
            cases sep with
            | nil => exact absurd rfl hsep
            | cons c sep =>
                obtain ⟨rfl, -⟩ := List.cons.inj hjoined
                exact absurd rfl hhead
        | cons c text =>
            rw [hm] at hjoined
            obtain ⟨rfl, rfl⟩ := List.cons.inj hjoined
            obtain ⟨front, more, rfl, heven, -⟩ := ih m List.mem_cons_self hm
            refine ⟨front, _, List.append_assoc _ _ _, heven, ?_⟩
            simp [hsep]
  induction h with
  | word h =>
      intro rest htext
      rw [TypeExpr.render] at htext
      exact absurd (by rw [htext]; rfl) (hword _ h).2
  | join hlength _ ih =>
      intro rest htext
      rw [TypeExpr.render, renderAll_eq_map] at htext
      obtain ⟨front, more, heq, heven, hne⟩ := hoperand (by decide) (by decide) hlength ih htext
      exact ⟨front, more, heq, heven, fun h => absurd h hne⟩
  | meet hlength _ ih =>
      intro rest htext
      rw [TypeExpr.render, renderAll_eq_map] at htext
      obtain ⟨front, more, heq, heven, hne⟩ := hoperand (by decide) (by decide) hlength ih htext
      exact ⟨front, more, heq, heven, fun h => absurd h hne⟩
  | @paren inner h _ =>
      intro rest htext
      rw [TypeExpr.render] at htext
      obtain ⟨-, rfl⟩ := List.cons.inj htext
      exact ⟨inner.render style, [], rfl,
        composes_even.render (fun t ht => (hword t ht).1) hhead h, fun _ => ⟨inner, rfl⟩⟩
  | @array item _ ih =>
      intro rest htext
      rw [TypeExpr.render] at htext
      cases hitem : item.render style with
      | nil =>
          rw [hitem] at htext
          exact absurd (List.cons.inj htext).1 (by decide)
      | cons c text =>
          rw [hitem] at htext
          obtain ⟨rfl, rfl⟩ := List.cons.inj htext
          obtain ⟨front, more, rfl, heven, -⟩ := ih hitem
          exact ⟨front, more ++ "[]".toList, List.append_assoc _ _ _, heven, fun h => absurd h (by simp)⟩
  | tuple _ _ _ _ =>
      intro rest htext
      rw [TypeExpr.render] at htext
      exact absurd (List.cons.inj htext).1 (by decide)
  | object _ _ _ _ _ =>
      intro rest htext
      rw [TypeExpr.render] at htext
      unfold Types.bracesText at htext
      split at htext
      · exact absurd (List.cons.inj htext).1 (by decide)
      · exact absurd (List.cons.inj htext).1 (by decide)

/-- **Outer parentheses of an even tree are those of the tree.** -/
theorem paren_of_stripParens? {style : Style} {Word : List Char → Prop} {Head : MemberHead → Prop}
    (hword : ∀ t, Word t → Even t ∧ t.head? ≠ some '(')
    (hhead : ∀ head, Head head → Even (docText head.doc) ∧ Even (keyText style head.name)) {e : TypeExpr}
    (h : Built Word Head e) {text : List Char} (hstrip : stripParens? (e.render style) = some text) :
    ∃ inner, e = .paren inner := by
  obtain ⟨heq, hbalanced⟩ := eq_of_stripParens? hstrip
  obtain ⟨front, more, hrest, heven, hwhole⟩ := paren_front hword hhead h heq
  rcases List.eq_nil_or_concat more with hmore | ⟨init, c, rfl⟩
  · exact hwhole hmore
  · -- the parenthesis that belongs to the first stands inside
    have hinner : text ++ [')'] = (front ++ ')' :: init) ++ [c] := by
      rw [List.concat_eq_append] at hrest
      rw [List.append_assoc]
      exact hrest
    obtain ⟨rfl, -⟩ := List.append_inj' hinner rfl
    rw [not_balanced_of_even heven] at hbalanced
    exact absurd hbalanced (by decide)

/-! ## The two vocabularies -/

/-- Heads of members whose comment does not stay open. -/
def QuietHead (head : MemberHead) : Prop := Quiet (docText head.doc)

/-- The same with even comments and names. -/
def EvenHead (head : MemberHead) : Prop :=
  Quiet (docText head.doc) ∧ Even (docText head.doc) ∧ Even head.name.toList

/-- Words whose brackets match, with even parentheses of which none is the first character. -/
def ClosedWord (text : List Char) : Prop := Closed text ∧ Even text ∧ text.head? ≠ some '('

/-- **The text of a tree over level words is level.** -/
theorem level_render (style : Style) {e : TypeExpr} (h : Built Level QuietHead e) :
    Level (e.render style) :=
  composes_level.render (fun _ h => h)
    (fun head h => ⟨h.level, (quiet_keyText style head.name).level⟩) h

/-- **The brackets of a tree over words with matching brackets match.** -/
theorem closed_render (style : Style) {e : TypeExpr} (h : Built ClosedWord EvenHead e) :
    Closed (e.render style) :=
  composes_closed.render (fun _ h => h.1)
    (fun head h => ⟨h.1.closed, (quiet_keyText style head.name).closed⟩) h

/-- **Any schema has level words only**, and what loses its outer parentheses stays level. -/
theorem levelVocabulary (style : Style) : Vocabulary style (fun _ => True) Level QuietHead where
  plain h := (quiet_of_plain h).level
  quoted _ := (quiet_quoteChars style _).level
  head _ _ := quiet_docText_docLines? _
  strip {e} h := by
    unfold TypeExpr.strip
    split
    · exact h
    · next text htext =>
      split
      · cases h with
        | paren h => exact h
      · exact .word (level_of_stripParens? (level_render style h) htext)

/-- **A schema with even texts has words whose brackets match**, and only a pair of parentheses that
belong together is taken away. -/
theorem closedVocabulary (style : Style) :
    Vocabulary style (fun s => Even s.toList) ClosedWord EvenHead where
  plain {text} h := by
    refine ⟨(quiet_of_plain h).closed, even_of_plain h, fun hhead => ?_⟩
    exact absurd (h '(' (List.mem_of_mem_head? hhead)) (by decide)
  quoted {s} h := by
    refine ⟨(quiet_quoteChars style _).closed, even_quoteChars h, ?_⟩
    unfold Style.quoteChars Style.quoteMark
    split <;> simp
  head hname hdescription := ⟨quiet_docText_docLines? _, even_docText_docLines? hdescription, hname⟩
  strip {e} h := by
    unfold TypeExpr.strip
    split
    · exact h
    · next text htext =>
      obtain ⟨inner, rfl⟩ := paren_of_stripParens? (fun _ h => h.2)
        (fun _ h => ⟨h.2.1, even_keyText h.2.2⟩) h htext
      cases h with
      | paren h => exact h

/-! ## Declarations -/

/-- The text of a declaration has what its comment and its type have. -/
theorem Composes.source {P : List Char → Prop} (C : Composes P) {style : Style} {d : Declaration}
    {Word : List Char → Prop} {Head : MemberHead → Prop}
    (hrender : ∀ e, Built Word Head e → P (e.render style)) (hdoc : P (docText d.doc))
    (hname : ∀ c ∈ d.name.toList, isPlain c = true) (hbody : d.body.IsBuilt Word Head) :
    P (d.source style).toList := by
  unfold Declaration.source
  rw [String.toList_ofList]
  refine C.append hdoc ?_
  cases hd : d.body with
  | constEnum members => rw [hd] at hbody; exact hbody.elim
  | interface type =>
      rw [hd] at hbody
      exact C.append (C.append (C.append (C.plain (by decide)) (C.plain hname)) (C.plain (by decide)))
        (hrender type hbody)
  | «alias» type =>
      rw [hd] at hbody
      exact C.append (C.append (C.append (C.append (C.plain (by decide)) (C.plain hname))
        (C.plain (by decide))) (hrender type hbody)) (C.plain (by decide))

end DecoderForge.Types
