import DecoderForge.Proofs.Text.Delimited
import DecoderForge.Proofs.Types.Grouped
import DecoderForge.Proofs.Types.Mentions

/-!
# DecoderForge — names that stand in the text

A declaration depends on the names that it mentions and on no others; here each of them is found in its text.
On the way from the reference to the declaration texts are indented line by line, parentheses are added and taken
away, and of types with one text all but the first are dropped.  A name has no line end and no parenthesis in
it, so that none of this takes it apart.

## The architecture

* **`Solid`** — texts that neither lines nor parentheses cut.
* **`Ingredient.infix_typeOf`** — one level: what stands in the type of an ingredient stands in the type.
* **`Scope.Visits.infix_typeOf`** — all levels, along the way of the compiler.
* **`infix_source_of_mentions`** — every name that is mentioned stands in the text.
-/

namespace DecoderForge

namespace Text

/-! ## Pieces of a text -/

/-- A text without a character stands on one side of it. -/
theorem infix_of_append_cons {c : Char} {n b : List Char} (hn : c ∉ n) :
    ∀ {a : List Char}, n <:+: a ++ c :: b → n <:+: a ∨ n <:+: b
  | [], h => by
      rcases List.infix_cons_iff.mp h with hprefix | hstands
      · exact .inl (prefix_of_append_cons hn (a := []) hprefix).isInfix
      · exact .inr hstands
  | x :: a, h => by
      rcases List.infix_cons_iff.mp h with hprefix | hstands
      · exact .inl (prefix_of_append_cons hn (a := x :: a) hprefix).isInfix
      · rcases infix_of_append_cons hn hstands with ha | hb
        · exact .inl (ha.trans (List.suffix_cons x a).isInfix)
        · exact .inr hb

/-- A text without a line feed stands in a segment. -/
theorem exists_segment_of_infix {n : List Char} (hne : n ≠ []) (hn : '\n' ∉ n) :
    ∀ {segments : List (List Char)}, n <:+: joinWith ['\n'] segments → ∃ s ∈ segments, n <:+: s
  | [], h => absurd (List.infix_nil.mp h) hne
  | [s], h => ⟨s, List.mem_cons_self, h⟩
  | s :: t :: rest, h => by
      have hjoined : n <:+: s ++ '\n' :: joinWith ['\n'] (t :: rest) := by
        simpa [joinWith] using h
      rcases infix_of_append_cons hn hjoined with hs | hrest
      · exact ⟨s, List.mem_cons_self, hs⟩
      · obtain ⟨u, hu, hstands⟩ := exists_segment_of_infix hne hn hrest
        exact ⟨u, List.mem_cons_of_mem s hu, hstands⟩

theorem infix_dropReturn {n s : List Char} (hne : n ≠ []) (hn : '\r' ∉ n) (h : n <:+: s) :
    n <:+: dropReturn s := by
  unfold dropReturn
  split
  · next hlast =>
    obtain ⟨init, rfl⟩ := List.getLast?_eq_some_iff.mp (by simpa using hlast)
    rw [List.dropLast_concat]
    rcases infix_of_append_cons hn h with hinit | hnil
    · exact hinit
    · exact absurd (List.infix_nil.mp hnil) hne
  · exact h

/-- A text without line ends stands in a line. -/
theorem exists_line_of_infix {n text : List Char} (hne : n ≠ []) (hnewline : '\n' ∉ n) (hreturn : '\r' ∉ n)
    (h : n <:+: text) : ∃ line ∈ lines text, n <:+: line := by
  rw [← joinWith_splitAt '\n' text] at h
  obtain ⟨s, hs, hstands⟩ := exists_segment_of_infix hne hnewline h
  have hlines : ∀ {segments : List (List Char)}, s ∈ segments →
      ∃ line ∈ linesOfSegments segments, n <:+: line := by
    intro segments
    induction segments with
    | nil => exact fun hs => absurd hs List.not_mem_nil
    | cons t rest ih =>
        intro hs
        cases rest with
        | nil =>
            obtain rfl := List.mem_singleton.mp hs
            have hfull : s.isEmpty = false := by
              cases s with
              | nil => exact absurd (List.infix_nil.mp hstands) hne
              | cons _ _ => rfl
            refine ⟨s, ?_, hstands⟩
            simp [linesOfSegments, hfull]
        | cons u rest =>
            rcases List.mem_cons.mp hs with rfl | hs
            · exact ⟨dropReturn s, List.mem_cons_self, infix_dropReturn hne hreturn hstands⟩
            · obtain ⟨line, hline, hn⟩ := ih hs
              exact ⟨line, List.mem_cons_of_mem _ hline, hn⟩
  exact hlines hs

end Text

namespace Types

open Layout (isPlain)

/-! ## Texts that are not cut -/

/-- A text that neither lines nor parentheses cut. -/
structure Solid (n : List Char) : Prop where
  ne_nil : n ≠ []
  newline : '\n' ∉ n
  carriage : '\r' ∉ n
  opening : '(' ∉ n
  closing : ')' ∉ n

variable {n : List Char} {style : Style}

theorem Solid.infix_indentLines (hn : Solid n) (unit : List Char) {text : List Char} (h : n <:+: text) :
    n <:+: indentLines unit text := by
  obtain ⟨line, hline, hstands⟩ := Text.exists_line_of_infix hn.ne_nil hn.newline hn.carriage h
  have hfull : line.isEmpty = false := by
    cases line with
    | nil => exact absurd (List.infix_nil.mp hstands) hn.ne_nil
    | cons _ _ => rfl
  have hmem : unit ++ line ∈ (Text.lines text).map fun line => if line.isEmpty then [] else unit ++ line := by
    refine List.mem_map.mpr ⟨line, hline, ?_⟩
    rw [if_neg (by simp [hfull])]
  exact (hstands.trans (List.suffix_append unit line).isInfix).trans (Text.infix_joinWith_of_mem ['\n'] hmem)

/-- A member between braces. -/
theorem Solid.infix_bracesText (hn : Solid n) (unit : List Char) {members : List (List Char)} {m : List Char}
    (hm : m ∈ members) (h : n <:+: m) : n <:+: bracesText unit members := by
  obtain ⟨before, after, rfl⟩ := List.append_of_mem hm
  have hindented := hn.infix_indentLines unit h
  unfold bracesText
  rw [if_neg (by simp)]
  refine hindented.trans ⟨"\x7b\n".toList ++ before.flatMap (fun m => indentLines unit m ++ ['\n']),
    ['\n'] ++ after.flatMap (fun m => indentLines unit m ++ ['\n']) ++ ['}'], ?_⟩
  simp

/-- What stands between parentheses. -/
theorem Solid.infix_of_parens (hn : Solid n) {text : List Char} (h : n <:+: '(' :: text ++ [')']) :
    n <:+: text := by
  rw [List.cons_append] at h
  rcases Text.infix_of_append_cons (a := []) hn.opening h with hnil | h
  · exact absurd (List.infix_nil.mp hnil) hn.ne_nil
  rcases Text.infix_of_append_cons hn.closing h with htext | hnil
  · exact htext
  · exact absurd (List.infix_nil.mp hnil) hn.ne_nil

/-! ## Putting types together -/

theorem infix_parens (text : List Char) : text <:+: '(' :: text ++ [')'] := ⟨['('], [')'], rfl⟩

/-- One of several types with an operator in between. -/
theorem infix_renderAll {e : TypeExpr} {es : List TypeExpr} (he : e ∈ es) (h : n <:+: e.render style)
    (sep : List Char) : n <:+: Text.joinWith sep (TypeExpr.renderAll style es) := by
  rw [renderAll_eq_map]
  exact h.trans (Text.infix_joinWith_of_mem sep (List.mem_map_of_mem he))

/-- Of types with one text the first is kept. -/
theorem exists_mem_distinctBy {e : TypeExpr} : ∀ {members : List TypeExpr} {seen : List (List Char)}, e ∈ members →
    e.render style ∈ seen ∨ ∃ e' ∈ TypeExpr.distinctBy style seen members, e'.render style = e.render style
  | m :: rest, seen, h => by
      unfold TypeExpr.distinctBy
      simp only
      split
      · next hseen =>
        rcases List.mem_cons.mp h with rfl | h
        · exact .inl (List.contains_iff_mem.mp hseen)
        · exact exists_mem_distinctBy h
      · rcases List.mem_cons.mp h with rfl | h
        · exact .inr ⟨e, List.mem_cons_self, rfl⟩
        have hrest : e.render style ∈ m.render style :: seen
            ∨ ∃ e' ∈ TypeExpr.distinctBy style (m.render style :: seen) rest, e'.render style = e.render style :=
          exists_mem_distinctBy h
        rcases hrest with hseen | ⟨e', he', heq⟩
        · rcases List.mem_cons.mp hseen with heq | hseen
          · exact .inr ⟨m, List.mem_cons_self, heq.symm⟩
          · exact .inl hseen
        · exact .inr ⟨e', List.mem_cons_of_mem m he', heq⟩

theorem infix_union {e : TypeExpr} {members : List TypeExpr} (he : e ∈ members) (h : n <:+: e.render style) :
    n <:+: (TypeExpr.union style members).render style := by
  obtain ⟨e', he', heq⟩ : ∃ e' ∈ TypeExpr.distinctBy style [] members, e'.render style = e.render style :=
    (exists_mem_distinctBy he).resolve_left List.not_mem_nil
  rw [← heq] at h
  unfold TypeExpr.union
  split
  · next hkept => exact absurd (hkept ▸ he') List.not_mem_nil
  · next f hkept =>
    rw [hkept] at he'
    obtain rfl := List.mem_singleton.mp he'
    exact h
  · rw [TypeExpr.render]
    exact infix_renderAll he' h _

theorem infix_parenthesize {e : TypeExpr} (h : n <:+: e.render style) :
    n <:+: (e.parenthesize style).render style := by
  unfold TypeExpr.parenthesize
  split
  · rw [TypeExpr.render]
    exact h.trans (infix_parens _)
  · exact h

theorem Solid.infix_strip (hn : Solid n) {e : TypeExpr} (h : n <:+: e.render style) :
    n <:+: (e.strip style).render style := by
  unfold TypeExpr.strip
  split
  · exact h
  next text htext =>
  split
  · rw [TypeExpr.render] at h
    exact hn.infix_of_parens h
  · rw [(eq_of_stripParens? htext).1] at h
    exact hn.infix_of_parens h

theorem Solid.infix_meetOf (hn : Solid n) {e : TypeExpr} {es : List TypeExpr} (he : e ∈ es)
    (h : n <:+: e.render style) : n <:+: (meetOf style es).render style := by
  match es, he with
  | [f], he =>
      obtain rfl := List.mem_singleton.mp he
      exact hn.infix_strip h
  | f :: g :: rest, he =>
      show n <:+: (TypeExpr.meet ((f :: g :: rest).map (TypeExpr.parenthesize style))).render style
      rw [TypeExpr.render]
      exact infix_renderAll (List.mem_map_of_mem he) (infix_parenthesize h) _

/-! ## One level -/

/-- What is collected holds a result for everything that was there. -/
theorem exists_of_collect {α β : Type} {f : α → Except Fault β} :
    ∀ {as : List α} {bs : List β}, collect f as = .ok bs → ∀ a ∈ as, ∃ b ∈ bs, f a = .ok b
  | first :: rest, bs, h, a, ha => by
      obtain ⟨b, hb, h⟩ := bind_eq_ok h
      obtain ⟨more, hmore, h⟩ := bind_eq_ok h
      obtain rfl : b :: more = bs := Except.ok.inj h
      rcases List.mem_cons.mp ha with rfl | ha
      · exact ⟨b, List.mem_cons_self, hb⟩
      · obtain ⟨c, hc, heq⟩ := exists_of_collect hmore a ha
        exact ⟨c, List.mem_cons_of_mem b hc, heq⟩

/-- A member of an object type. -/
theorem Solid.infix_member (hn : Solid n) {members : List (MemberHead × TypeExpr)} {index : Option TypeExpr}
    {m : MemberHead × TypeExpr} (hm : m ∈ members) (h : n <:+: m.2.render style) :
    n <:+: (TypeExpr.object members index).render style := by
  rw [TypeExpr.render, renderMembers_eq_map]
  refine hn.infix_bracesText _ (List.mem_append_left _ (List.mem_map_of_mem hm)) (h.trans ?_)
  exact ⟨docText m.1.doc ++ keyText style m.1.name ++ (if m.1.isOptional then ['?'] else []) ++ ": ".toList, [';'],
    rfl⟩

/-- The type of the members that are not named. -/
theorem Solid.infix_index (hn : Solid n) {members : List (MemberHead × TypeExpr)} {e : TypeExpr}
    (h : n <:+: e.render style) : n <:+: (TypeExpr.object members (some e)).render style := by
  rw [TypeExpr.render]
  refine hn.infix_bracesText _ (List.mem_append_right _ (List.mem_singleton.mpr rfl)) (h.trans ?_)
  exact ⟨"[k: string]: ".toList, [';'], rfl⟩

section Level

variable {rec : Json → Result} {schema t : Json}

/-- The type of members that several schemas speak of. -/
theorem infix_indexFrom {e : TypeExpr} {members : List TypeExpr} (he : e ∈ members) (h : n <:+: e.render style)
    {index : Option TypeExpr} (hindex : indexFrom style false members = .ok index) :
    ∃ e' ∈ index, n <:+: e'.render style := by
  obtain ⟨m, rest, rfl⟩ := List.exists_cons_of_ne_nil (List.ne_nil_of_mem he)
  obtain rfl := Except.ok.inj hindex
  exact ⟨_, rfl, infix_union he h⟩

theorem infix_indexBeside {others : List TypeExpr} {index : Option TypeExpr}
    (hindex : indexBeside style rec schema false others = .ok index)
    (h : (∃ e ∈ others, n <:+: e.render style)
      ∨ ∃ patterns k, schema.get? "patternProperties" = some (.obj patterns) ∧ (k, t) ∈ patterns
        ∧ ∀ e, rec t = .ok e → n <:+: e.render style) :
    ∃ e ∈ index, n <:+: e.render style := by
  unfold indexBeside at hindex
  split at hindex
  · next patterns hpatterns =>
    obtain ⟨types, htypes, hindex⟩ := bind_eq_ok hindex
    rcases h with ⟨e, he, h⟩ | ⟨patterns', k, hpatterns', hmem, h⟩
    · exact infix_indexFrom (List.mem_append_left types he) h hindex
    · rw [get?_of_asMembers? hpatterns] at hpatterns'
      obtain rfl := Json.obj.inj (Option.some.inj hpatterns')
      obtain ⟨e, he, heq⟩ := exists_of_collect htypes _ hmem
      exact infix_indexFrom (List.mem_append_right others he) (h e heq) hindex
  · next hnone =>
    obtain ⟨types, htypes, hindex⟩ := bind_eq_ok hindex
    rcases h with ⟨e, he, h⟩ | ⟨patterns', k, hpatterns', -⟩
    · exact infix_indexFrom (List.mem_append_left types he) h hindex
    · rw [hpatterns'] at hnone
      exact absurd hnone (by simp [Json.asMembers?])

/-- What `additionalProperties` says of members that are not named. -/
theorem infix_others (h : schema.get? "additionalProperties" = some t) (ht : ∀ b, t ≠ .bool b)
    (hrec : ∀ e, rec t = .ok e → n <:+: e.render style) {index : Option TypeExpr}
    (hindex : indexType style rec schema false = .ok index) : ∃ e ∈ index, n <:+: e.render style := by
  unfold indexType at hindex
  rw [h] at hindex
  cases t with
  | bool b => exact absurd rfl (ht b)
  | _ =>
      simp only at hindex
      obtain ⟨e, he, hindex⟩ := bind_eq_ok hindex
      have hbeside : indexBeside style rec schema false [e] = .ok index := hindex
      exact infix_indexBeside (t := .null) hbeside (.inl ⟨e, List.mem_singleton.mpr rfl, hrec e he⟩)

/-- What `patternProperties` says of members that are not named. -/
theorem infix_pattern {k : String} {v : Json} {patterns : Json.Members}
    (hothers : schema.get? "additionalProperties" = some v) (hv : v ≠ .bool true)
    (h : schema.get? "patternProperties" = some (.obj patterns)) (hmem : (k, t) ∈ patterns)
    (hrec : ∀ e, rec t = .ok e → n <:+: e.render style) {index : Option TypeExpr}
    (hindex : indexType style rec schema false = .ok index) : ∃ e ∈ index, n <:+: e.render style := by
  have hmeant : ∀ others, indexBeside style rec schema false others = .ok index →
      ∃ e ∈ index, n <:+: e.render style :=
    fun others hbeside => infix_indexBeside hbeside (.inr ⟨patterns, k, h, hmem, hrec⟩)
  unfold indexType at hindex
  rw [hothers] at hindex
  cases v with
  | bool b =>
      cases b with
      | true => exact absurd rfl hv
      | false => exact hmeant [] hindex
  | _ =>
      simp only at hindex
      obtain ⟨e, he, hindex⟩ := bind_eq_ok hindex
      exact hmeant [e] hindex

/-- An object type, by one of its members or by the type of all others. -/
theorem Solid.infix_objectType (hn : Solid n) {e : TypeExpr} (h : objectType style rec schema = .ok e)
    (hpart : (∃ k, (k, t) ∈ propertiesOf schema ∧ ∀ e, rec t = .ok e → n <:+: e.render style)
      ∨ propertiesOf schema = [] ∧ ∀ index, indexType style rec schema false = .ok index →
        ∃ e ∈ index, n <:+: e.render style) :
    n <:+: e.render style := by
  obtain ⟨members, hmembers, h⟩ := bind_eq_ok h
  obtain ⟨index, hindex, h⟩ := bind_eq_ok h
  obtain rfl := Except.ok.inj h
  rcases hpart with ⟨k, hmem, hrec⟩ | ⟨hnone, hothers⟩
  · obtain ⟨m, hm, heq⟩ := exists_of_collect hmembers _ hmem
    obtain ⟨e, he, heq⟩ := bind_eq_ok heq
    obtain rfl := Except.ok.inj heq
    exact hn.infix_member hm (hrec e he)
  · rw [hnone] at hindex
    obtain ⟨e, he, hstands⟩ := hothers index hindex
    obtain rfl := Option.mem_def.mp he
    exact hn.infix_index hstands

/-- A part of a tuple. -/
theorem infix_tuple {items : List TypeExpr} {rest : Option TypeExpr}
    (h : (∃ e ∈ items, n <:+: e.render style) ∨ ∃ e ∈ rest, n <:+: e.render style) :
    n <:+: (TypeExpr.tuple items rest).render style := by
  have hpart : ∃ part ∈ TypeExpr.renderAll style items ++ TypeExpr.renderRest style rest, n <:+: part := by
    rcases h with ⟨e, he, h⟩ | ⟨e, he, h⟩
    · rw [renderAll_eq_map]
      exact ⟨_, List.mem_append_left _ (List.mem_map_of_mem he), h⟩
    · obtain rfl := Option.mem_def.mp he
      exact ⟨_, List.mem_append_right _ (List.mem_singleton.mpr rfl), h.trans ⟨"...".toList, "[]".toList, rfl⟩⟩
  obtain ⟨part, hmem, hstands⟩ := hpart
  rw [TypeExpr.render]
  refine (hstands.trans (Text.infix_joinWith_of_mem ", ".toList hmem)).trans ?_
  exact ⟨['['], [']'], rfl⟩

theorem infix_array {e : TypeExpr} (h : n <:+: e.render style) : n <:+: (TypeExpr.array e).render style := by
  rw [TypeExpr.render]
  exact h.trans (List.prefix_append _ _).isInfix

/-- An array type, by its items. -/
theorem infix_items (h : schema.get? "items" = some t) (ht : ∀ items, t ≠ .arr items)
    (hrec : ∀ e, rec t = .ok e → n <:+: e.render style) {e : TypeExpr}
    (harray : arrayType style rec schema = .ok e) : n <:+: e.render style := by
  unfold arrayType at harray
  rw [h] at harray
  cases t with
  | arr items => exact absurd rfl (ht items)
  | _ =>
      simp only at harray
      obtain ⟨item, hitem, harray⟩ := bind_eq_ok harray
      obtain rfl := Except.ok.inj harray
      exact infix_array (infix_parenthesize (hrec item hitem))

/-- A tuple type: its items, and the rest where a schema speaks of it. -/
theorem exists_tuple_of_arrayType {items : List Json} (h : schema.get? "items" = some (.arr items)) {e : TypeExpr}
    (he : arrayType style rec schema = .ok e) :
    ∃ members rest, e = .tuple members rest ∧ collect rec items = .ok members
      ∧ ∀ t, schema.get? "additionalItems" = some t → (∀ b, t ≠ .bool b) →
        ∃ f, rec t = .ok f ∧ rest = some (f.parenthesize style) := by
  unfold arrayType at he
  rw [h] at he
  simp only at he
  obtain ⟨members, hmembers, he⟩ := bind_eq_ok he
  split at he
  · next hrest =>
    obtain rfl := Except.ok.inj he
    refine ⟨members, none, rfl, hmembers, fun t ht hno => ?_⟩
    exact absurd (Option.some.inj (ht.symm.trans hrest)) (hno false)
  · next hrest =>
    obtain rfl := Except.ok.inj he
    refine ⟨members, _, rfl, hmembers, fun t ht _ => ?_⟩
    exact absurd (ht.symm.trans hrest) (by simp)
  · next hrest =>
    obtain rfl := Except.ok.inj he
    refine ⟨members, _, rfl, hmembers, fun t ht hno => ?_⟩
    exact absurd (Option.some.inj (ht.symm.trans hrest)) (hno true)
  · next u _ _ hrest =>
    obtain ⟨f, hf, he⟩ := bind_eq_ok he
    obtain rfl := Except.ok.inj he
    refine ⟨members, _, rfl, hmembers, fun t ht _ => ?_⟩
    obtain rfl : u = t := Option.some.inj (hrest.symm.trans ht)
    exact ⟨f, hf, rfl⟩

/-- The type by one of the words of `type`. -/
theorem infix_baseType {word : String} (htype : HasType schema word)
    (hword : ∀ e, namedType style rec schema word = .ok e → n <:+: e.render style) {base : Option TypeExpr}
    (h : baseType style rec schema = .ok base) : ∃ e ∈ base, n <:+: e.render style := by
  unfold baseType at h
  rw [htype.const] at h
  simp only [htype.enum] at h
  split at h
  · next hnone => exact absurd (hnone ▸ htype.word) List.not_mem_nil
  · obtain ⟨members, hmembers, h⟩ := bind_eq_ok h
    obtain rfl := Except.ok.inj h
    obtain ⟨e, he, heq⟩ := exists_of_collect hmembers word htype.word
    exact ⟨_, rfl, infix_union he (hword e heq)⟩

/-- The types of a list of schemas. -/
theorem infix_memberTypes {keyword : String} {subs : List Json} (h : schema.get? keyword = some (.arr subs))
    (hmem : t ∈ subs) (hrec : ∀ e, rec t = .ok e → n <:+: e.render style) {types : Option (List TypeExpr)}
    (htypes : memberTypes style rec schema keyword = .ok types) :
    ∃ es ∈ types, ∃ e ∈ es, n <:+: e.render style := by
  unfold memberTypes at htypes
  rw [h] at htypes
  obtain ⟨members, hmembers, htypes⟩ := bind_eq_ok htypes
  obtain rfl := Except.ok.inj htypes
  obtain ⟨e, he, heq⟩ := exists_of_collect hmembers t hmem
  obtain ⟨e', he', rfl⟩ := map_eq_ok heq
  exact ⟨_, rfl, _, he, infix_parenthesize (hrec e' he')⟩

theorem infix_choiceType {keyword : String} {subs : List Json} (h : schema.get? keyword = some (.arr subs))
    (hmem : t ∈ subs) (hrec : ∀ e, rec t = .ok e → n <:+: e.render style) {es : List TypeExpr}
    (hes : choiceType style rec schema keyword = .ok es) : ∃ e ∈ es, n <:+: e.render style := by
  obtain ⟨types, htypes, hes⟩ := bind_eq_ok hes
  obtain ⟨members, hmembers, e, he, hstands⟩ := infix_memberTypes h hmem hrec htypes
  obtain rfl := Option.mem_def.mp hmembers
  obtain rfl := Except.ok.inj hes
  exact ⟨_, List.mem_singleton.mpr rfl, infix_parenthesize (infix_union he hstands)⟩

/-- What stands in the type of an ingredient stands in one of the parts. -/
theorem Ingredient.infix_partsOf (hn : Solid n) (h : Ingredient schema t)
    (hrec : ∀ e, rec t = .ok e → n <:+: e.render style) {es : List TypeExpr}
    (hes : partsOf style rec schema = .ok es) : ∃ e ∈ es, n <:+: e.render style := by
  obtain ⟨base, hbase, hes⟩ := bind_eq_ok hes
  obtain ⟨all, hall, hes⟩ := bind_eq_ok hes
  obtain ⟨any, hany, hes⟩ := bind_eq_ok hes
  obtain ⟨one, hone, hes⟩ := bind_eq_ok hes
  obtain rfl := Except.ok.inj hes
  have hinBase : (∃ e ∈ base, n <:+: e.render style) →
      ∃ e ∈ base.toList ++ all.getD [] ++ any ++ one, n <:+: e.render style := by
    rintro ⟨e, he, hstands⟩
    exact ⟨e, by simp [Option.mem_def.mp he], hstands⟩
  have hobject : (HasType schema "object") → (∀ e, objectType style rec schema = .ok e → n <:+: e.render style) →
      ∃ e ∈ base.toList ++ all.getD [] ++ any ++ one, n <:+: e.render style :=
    fun htype hword => hinBase (infix_baseType htype hword hbase)
  have harray : (HasType schema "array") → (∀ e, arrayType style rec schema = .ok e → n <:+: e.render style) →
      ∃ e ∈ base.toList ++ all.getD [] ++ any ++ one, n <:+: e.render style :=
    fun htype hword => hinBase (infix_baseType htype hword hbase)
  cases h with
  | property htype hmem =>
      exact hobject htype fun e he => hn.infix_objectType he (.inl ⟨_, hmem, hrec⟩)
  | others htype hnone h ht =>
      refine hobject htype fun e he => hn.infix_objectType (t := t) he (.inr ⟨hnone, fun index hindex => ?_⟩)
      exact infix_others h ht hrec hindex
  | pattern htype hnone hothers hv h hmem =>
      refine hobject htype fun e he => hn.infix_objectType (t := t) he (.inr ⟨hnone, fun index hindex => ?_⟩)
      exact infix_pattern hothers hv h hmem hrec hindex
  | items htype h ht => exact harray htype fun e he => infix_items h ht hrec he
  | item htype h hmem =>
      refine harray htype fun e he => ?_
      obtain ⟨members, rest, rfl, hmembers, -⟩ := exists_tuple_of_arrayType h he
      obtain ⟨e, he, heq⟩ := exists_of_collect hmembers t hmem
      exact infix_tuple (.inl ⟨e, he, hrec e heq⟩)
  | rest htype h hrest ht =>
      refine harray htype fun e he => ?_
      obtain ⟨members, rest, rfl, -, hlast⟩ := exists_tuple_of_arrayType h he
      obtain ⟨f, hf, rfl⟩ := hlast t hrest ht
      exact infix_tuple (.inr ⟨_, rfl, infix_parenthesize (hrec f hf)⟩)
  | branch hkeyword h hmem =>
      simp only [List.mem_cons, List.not_mem_nil, or_false] at hkeyword
      rcases hkeyword with rfl | rfl | rfl
      · obtain ⟨types, htypes, e, he, hstands⟩ := infix_memberTypes h hmem hrec hall
        exact ⟨e, by simp [Option.mem_def.mp htypes, he], hstands⟩
      · obtain ⟨e, he, hstands⟩ := infix_choiceType h hmem hrec hany
        exact ⟨e, by simp [he], hstands⟩
      · obtain ⟨e, he, hstands⟩ := infix_choiceType h hmem hrec hone
        exact ⟨e, by simp [he], hstands⟩

/-- **One level.**  What stands in the type of an ingredient stands in the type. -/
theorem Ingredient.infix_typeOf (hn : Solid n) (hnone : schema.get? "$ref" = none) (h : Ingredient schema t)
    (hrec : ∀ e, rec t = .ok e → n <:+: e.render style) {reference : String → Result} {e : TypeExpr}
    (he : typeOf style reference rec schema = .ok e) : n <:+: e.render style := by
  have hinside := h.part.inside
  cases schema with
  | obj members =>
      have hget : Json.Members.get? members "$ref" = none := hnone
      unfold typeOf at he
      simp only [hget] at he
      obtain ⟨es, hes, rfl⟩ := map_eq_ok he
      obtain ⟨e, hmem, hstands⟩ := h.infix_partsOf hn hrec hes
      exact hn.infix_meetOf hmem hstands
  | bool _ => exact absurd hinside.height_lt (Nat.not_lt_zero _)
  | null | num _ | str _ | arr _ => exact absurd he (by simp [typeOf])

/-- The type of an interface is the one part of its schema. -/
theorem partsOf_of_isInterface (h : isInterface schema = true) {e : TypeExpr}
    (he : objectType style rec schema = .ok e) : partsOf style rec schema = .ok [e] := by
  obtain ⟨habsent, hnames⟩ := absent_of_isInterface h
  have hget : ∀ keyword ∈ noInterface, schema.get? keyword = none := habsent
  have hbase : baseType style rec schema = .ok (some e) := by
    unfold baseType
    rw [hget "const" (by simp [noInterface]), hget "enum" (by simp [noInterface]), hnames]
    show (collect (namedType style rec schema) ["object"] >>= _) = _
    have hone : collect (namedType style rec schema) ["object"] = .ok [e] := by
      show (objectType style rec schema >>= _) = _
      rw [he]
      rfl
    rw [hone]
    rfl
  have hmembers : ∀ keyword ∈ noInterface, memberTypes style rec schema keyword = .ok none := by
    intro keyword hkeyword
    unfold memberTypes
    rw [hget keyword hkeyword]
    rfl
  unfold partsOf choiceType
  rw [hbase, hmembers "allOf" (by simp [noInterface]), hmembers "anyOf" (by simp [noInterface]),
    hmembers "oneOf" (by simp [noInterface])]
  rfl

end Level

/-! ## All levels -/

/-- Types of schemas inside others as far as they are known at some level. -/
def Below (style : Style) (reference : String → Result) (rec : Json → Result) : Prop :=
  ∀ s e, rec s = .ok e → ∃ fuel, levels style reference fuel s = .ok e

/-- A schema without a hint has the type that its keywords give it. -/
theorem exists_below_of_levels {reference : String → Result} {s : Json} (hhint : s.getString? typeHintKey = none) :
    ∀ {fuel : Nat} {e : TypeExpr}, levels style reference fuel s = .ok e →
      ∃ rec, Below style reference rec ∧ typeOf style reference rec s = .ok e
  | 0, e, h => by
      unfold levels hinted at h
      rw [hhint] at h
      exact ⟨_, fun _ _ h => absurd h (by simp), h⟩
  | fuel + 1, e, h => by
      unfold levels hinted at h
      rw [hhint] at h
      exact ⟨_, fun _ _ h => ⟨fuel, h⟩, h⟩

/-- The type of a schema with a reference is what the reference stands for. -/
theorem reference_of_typeOf {reference : String → Result} {rec : Json → Result} {s : Json} {r : String}
    (h : s.get? "$ref" = some (.str r)) {e : TypeExpr} (he : typeOf style reference rec s = .ok e) :
    reference r = .ok e := by
  cases s with
  | obj members =>
      have hget : Json.Members.get? members "$ref" = some (.str r) := h
      unfold typeOf at he
      simpa only [hget] using he
  | null | bool _ | num _ | str _ | arr _ => exact absurd h (by simp [Json.get?])

/-- **All levels.**  Along the way of the compiler the name at its end gets into every type. -/
theorem Scope.Visits.infix_typeOf {scope : Scope} {name : String} (hn : Solid name.toList) {s t : Json}
    (h : scope.Visits s t) (hname : scope.StandsFor t name) :
    ∀ {remaining : Nat} {rec : Json → Result}, Below scope.style (scope.reference remaining) rec →
      ∀ e, typeOf scope.style (scope.reference remaining) rec s = .ok e → name.toList <:+: e.render scope.style := by
  induction h using Relation.ReflTransGen.head_induction_on with
  | refl =>
      intro remaining rec _ e he
      obtain ⟨r, hr, hne, hlookup⟩ := hname
      have hreference := reference_of_typeOf hr he
      rw [Scope.reference_of_lookup hne hlookup] at hreference
      obtain rfl := Except.ok.inj hreference
      exact List.infix_refl _
  | @head s u hstep _ ih =>
      intro remaining rec hrec e he
      obtain ⟨hfollows, hhint⟩ := hstep
      have hlevels : ∀ {remaining fuel : Nat} e,
          levels scope.style (scope.reference remaining) fuel u = .ok e → name.toList <:+: e.render scope.style := by
        intro remaining fuel e he
        obtain ⟨rec, hbelow, he⟩ := exists_below_of_levels hhint he
        exact ih hbelow e he
      cases hfollows with
      | ingredient hnone hpart =>
          refine hpart.infix_typeOf hn hnone (fun e he => ?_) he
          obtain ⟨fuel, he⟩ := hrec u e he
          exact hlevels e he
      | target hr hne hnone hresolve =>
          have hreference := reference_of_typeOf hr he
          have hbeq : (_ == "#") = false := beq_false_of_ne hne
          unfold Scope.reference at hreference
          rw [hbeq, hnone] at hreference
          cases remaining with
          | zero => exact absurd hreference (by simp)
          | succ remaining =>
              simp only [hresolve] at hreference
              exact hlevels e hreference

/-- An interface is made from its ingredients, as it is no reference. -/
theorem Scope.Visits.infix_objectType {scope : Scope} {name : String} (hn : Solid name.toList) {s t : Json}
    (h : scope.Visits s t) (hname : scope.StandsFor t name) (hinterface : isInterface s = true) {type : TypeExpr}
    (htype : scope.objectType s = .ok type) : name.toList <:+: type.render scope.style := by
  have hnone : s.get? "$ref" = none := (absent_of_isInterface hinterface).1 "$ref" (by simp [noInterface])
  rcases Relation.ReflTransGen.cases_head h with rfl | ⟨u, ⟨hfollows, hhint⟩, hrest⟩
  · obtain ⟨r, hr, -⟩ := hname
    rw [hnone] at hr
    exact absurd hr (by simp)
  cases hfollows with
  | target hr _ _ _ =>
      rw [hnone] at hr
      exact absurd hr (by simp)
  | ingredient _ hpart =>
      have hexpr : ∀ e, scope.expr u = .ok e → name.toList <:+: e.render scope.style := by
        intro e he
        obtain ⟨rec, hbelow, he⟩ := exists_below_of_levels hhint he
        exact Scope.Visits.infix_typeOf hn hrest hname hbelow e he
      obtain ⟨e, he, hstands⟩ := hpart.infix_partsOf hn hexpr (partsOf_of_isInterface hinterface htype)
      obtain rfl := List.mem_singleton.mp he
      exact hstands

/-- The type of a declaration, which is no constant enum, stands in its text. -/
theorem infix_source {d : Declaration} {type : TypeExpr} (hbody : d.body = .interface type ∨ d.body = .alias type)
    (h : n <:+: type.render style) : n <:+: (d.source style).toList := by
  unfold Declaration.source
  rw [String.toList_ofList]
  refine List.IsInfix.trans ?_ (List.suffix_append _ _).isInfix
  rcases hbody with hbody | hbody
  · rw [hbody]
    exact h.trans (List.suffix_append _ _).isInfix
  · rw [hbody]
    exact h.trans ⟨"export type ".toList ++ d.name.toList ++ " = ".toList, [';'], rfl⟩

/-! ## Names of definitions -/

/-- Characters that lines, parentheses and operators are not made of. -/
def isSolid (c : Char) : Bool := isBare c && c != '\n' && c != '\r'

theorem solid_of {p : Char → Bool} (hp : ∀ d ∈ '\n' :: '\r' :: (Layout.markers ++ operators), p d = false) {c : Char}
    (h : p c = true) : isSolid c = true := by
  have hne : ∀ d ∈ ['\n', '\r'], c ≠ d := by
    rintro d hd rfl
    have hno := hp c (by simp at hd ⊢; tauto)
    rw [h] at hno
    exact absurd hno (by decide)
  have hbare : isBare c = true := bare_of (fun d hd => hp d (by simp [List.mem_append.mp hd])) h
  simp [isSolid, hbare, hne '\n' (by simp), hne '\r' (by simp)]

theorem solid_ofNat : ∀ n, 0x80 ≤ n → isSolid (Char.ofNat n) = true :=
  Text.holds_ofNat (fun _ h => solid_of (p := fun c => decide (0x80 ≤ c.toNat)) (by decide) (by simpa using h)) rfl

/-- Naming keeps to such characters. -/
theorem kept_isSolid : Name.Kept isSolid where
  wordPart _ := solid_of (by decide)
  underscore := rfl
  digit _ := solid_of (by decide)
  upper _ h := Text.holds_mapped solid_ofNat (by decide) (by decide) fun hlow =>
    Text.ascii_of_all (q := fun c => isSolid c = true → isSolid c.toUpper = true) (by decide) hlow h
  lower _ h := Text.holds_mapped solid_ofNat (by decide) (by decide) fun hlow =>
    Text.ascii_of_all (q := fun c => isSolid c = true → isSolid c.toLower = true) (by decide) hlow h

/-- A reference that is answered is answered with a name that is not cut. -/
theorem solid_of_lookup {naming : Naming} {policy : CollisionPolicy} {schema : Json} {named : List Definition}
    (hnamed : definitionsOf naming policy schema = .ok named) {r name : String}
    (h : (referenceNames named).lookup r = some name) : Solid name.toList := by
  obtain ⟨d, hd, -, rfl⟩ := mem_referenceNames.mp (mem_of_lookup h)
  rcases definitionsOf_cases hnamed with rfl | ⟨definitions, -, henum⟩
  · exact absurd hd List.not_mem_nil
  obtain ⟨c, rest, hchars, -⟩ := Definitions.head_of_enumerate henum d hd
  have hno : ∀ c, isSolid c = false → c ∉ d.name.toList := by
    intro c hc hmem
    have hsolid := Definitions.kept_of_enumerate kept_isSolid henum d hd c hmem
    rw [hsolid] at hc
    exact absurd hc (by decide)
  exact ⟨by simp [hchars], hno _ rfl, hno _ rfl, hno _ rfl, hno _ rfl⟩

/-- **Every name that is mentioned stands in the text** of the declaration. -/
theorem infix_source_of_mentions {naming : Naming} {policy : CollisionPolicy} {schema : Json}
    {named : List Definition} (hnamed : definitionsOf naming policy schema = .ok named) {scope : Scope}
    (hnames : scope.names = referenceNames named) {options : Options} {s : Json}
    (henum : constEnum? options s = none) {name : String} (h : scope.Mentions s name) {own : String}
    {d : Declaration} (hd : declare scope options own s = .ok d) :
    name.toList <:+: (d.source scope.style).toList := by
  obtain ⟨t, ht, hname⟩ := h
  have hn : Solid name.toList := by
    obtain ⟨r, -, -, hlookup⟩ := hname
    rw [hnames] at hlookup
    exact solid_of_lookup hnamed hlookup
  have hbelow : Below scope.style (scope.reference maxInline) scope.expr := fun s _ he => ⟨s.height, he⟩
  unfold declare at hd
  rw [henum] at hd
  simp only at hd
  split at hd
  · next hinterface =>
    obtain ⟨type, htype, rfl⟩ := map_eq_ok hd
    exact infix_source (.inl rfl) (ht.infix_objectType hn hname hinterface htype)
  · obtain ⟨type, htype, rfl⟩ := map_eq_ok hd
    exact infix_source (.inr rfl) (ht.infix_typeOf hn hname hbelow type htype)

end Types

end DecoderForge
