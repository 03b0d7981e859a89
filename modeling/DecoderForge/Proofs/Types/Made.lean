import DecoderForge.Proofs.Layout.Literals
import DecoderForge.Proofs.Result
import DecoderForge.Proofs.Schema.Inside
import DecoderForge.Types.Declaration
import Mathlib.Logic.Relation

/-!
# DecoderForge — what the type compiler makes

What holds of all types is shown of the trees once and for all.  The compiler makes whole types, atoms, which
need no parentheses anywhere, and operands, which have them where they need them.  Two predicates that hold of
whatever is made of trees of which they hold, hold of every declared type.

## The architecture

* **`Part`**, **`Scope.Reads`** — the schemas from which the type of a schema is made.
* **`Names`**, **`Brings`** — the texts that a schema brings in.
* **`Makes`** — the predicates that hold of whatever the compiler makes.
* **`Makes.whole_typeOf`** — one level: whole parts give a whole type.
* **`Makes.whole_declare`** — the run: every declared type is whole.
-/

namespace DecoderForge.Types

open Layout (isPlain)

/-! ## Parts -/

/-- The schemas inside a schema that its type is made from. -/
inductive Part (schema : Json) : Json → Prop where
  | property {k : String} {t : Json} (h : (k, t) ∈ propertiesOf schema) : Part schema t
  | others {t : Json} (h : schema.get? "additionalProperties" = some t) : Part schema t
  | pattern {k : String} {t : Json} {patterns : Json.Members}
      (h : schema.get? "patternProperties" = some (.obj patterns)) (hmem : (k, t) ∈ patterns) :
      Part schema t
  | items {t : Json} (h : schema.get? "items" = some t) : Part schema t
  | item {t : Json} {items : List Json} (h : schema.get? "items" = some (.arr items))
      (hmem : t ∈ items) : Part schema t
  | rest {t : Json} (h : schema.get? "additionalItems" = some t) : Part schema t
  | branch {t : Json} {keyword : String} {subs : List Json} (hkeyword : keyword ∈ ["allOf", "anyOf", "oneOf"])
      (h : schema.get? keyword = some (.arr subs)) (hmem : t ∈ subs) : Part schema t

/-- The value of a member is inside. -/
theorem inside_of_get? {schema t : Json} {name : String} (h : schema.get? name = some t) :
    Json.Inside t schema := by
  cases schema with
  | obj members => exact Json.inside_of_get? h
  | _ => exact absurd h (by simp [Json.get?])

theorem Part.inside {schema t : Json} (h : Part schema t) : Json.Inside t schema := by
  cases h with
  | property h =>
      unfold propertiesOf at h
      cases hproperties : schema.get? "properties" with
      | none => simp [hproperties] at h
      | some v =>
          cases v with
          | obj members =>
              rw [hproperties] at h
              exact .trans (.member h) (inside_of_get? hproperties)
          | _ => simp [hproperties, Json.asMembers?] at h
  | others h | items h | rest h => exact inside_of_get? h
  | pattern h hmem => exact .trans (.member hmem) (inside_of_get? h)
  | item h hmem | branch _ h hmem => exact .trans (.item hmem) (inside_of_get? h)

/-- One step from a schema to a schema that its type is made from: a part of it, or the target of its
reference where the reference stands for no definition. -/
inductive Scope.Reads (scope : Scope) : Json → Json → Prop where
  | part {schema t : Json} (h : Part schema t) : Scope.Reads scope schema t
  | target {schema t : Json} {r : String} (h : schema.get? "$ref" = some (.str r)) (hne : r ≠ "#")
      (hnone : scope.names.lookup r = none) (hresolve : resolveLocal? scope.root r = some t) :
      Scope.Reads scope schema t

/-- Reading stays inside the schema around the definitions. -/
theorem Scope.Reads.inside {scope : Scope} {s t : Json} (hs : s = scope.root ∨ Json.Inside s scope.root)
    (h : scope.Reads s t) : t = scope.root ∨ Json.Inside t scope.root := by
  cases h with
  | part hpart =>
      rcases hs with rfl | hs
      · exact Or.inr hpart.inside
      · exact Or.inr (.trans hpart.inside hs)
  | target _ _ _ hresolve => exact Json.inside_of_resolveLocal? hresolve

/-! ## Texts of a schema -/

/-- The names that a schema brings in: those of its properties, and its constants. -/
structure Names (Named : String → Prop) (schema : Json) : Prop where
  name : ∀ k t, (k, t) ∈ propertiesOf schema → Named k
  const : ∀ s, schema.get? "const" = some (.str s) → Named s
  enum : ∀ values s, schema.get? "enum" = some (.arr values) → .str s ∈ values → Named s

/-- All that a schema brings in: names, and its description. -/
structure Brings (Named Described : String → Prop) (schema : Json) : Prop extends Names Named schema where
  description : ∀ d, schema.getString? "description" = some d → Described d

/-! ## Bare words -/

/-- Characters that operators of type text begin with. -/
def operators : List Char := ['|', '&', '=']

/-- Characters that mean nothing in type text. -/
def isBare (c : Char) : Bool := isPlain c && !operators.contains c

/-- What holds of no character with a meaning holds of bare ones only. -/
theorem bare_of {p : Char → Bool} (hp : ∀ d ∈ Layout.markers ++ operators, p d = false) {c : Char}
    (h : p c = true) : isBare c = true := by
  have hplain : isPlain c = true := Layout.plain_of (fun d hd => hp d (List.mem_append_left _ hd)) h
  have hoperator : operators.contains c = false := by
    cases hc : operators.contains c with
    | false => rfl
    | true =>
        have hno := hp c (List.mem_append_right _ (List.contains_iff_mem.mp hc))
        rw [h] at hno
        exact absurd hno (by decide)
  rw [isBare, hplain, hoperator]
  rfl

theorem plain_of_bare {c : Char} (h : isBare c = true) : isPlain c = true :=
  (Bool.and_eq_true_iff.mp h).1

/-! ## What is made -/

section Trees

variable (Whole Atom : TypeExpr → Prop)

/-- An operand: an atom, or a whole type in parentheses. -/
def Operand (e : TypeExpr) : Prop := Atom e ∨ ∃ inner, e = .paren inner ∧ Whole inner

/-- What the keywords of a schema contribute one by one: an operand, or atoms of which any may be. -/
def Contribution (e : TypeExpr) : Prop :=
  Operand Whole Atom e ∨ ∃ es, e = .join es ∧ 2 ≤ es.length ∧ ∀ x ∈ es, Atom x

end Trees

/-- Predicates that hold of whatever the compiler makes of trees of which they hold.  The type of members that
are not named is the one place where types stand next to each other as they are. -/
structure Makes (style : Style) (Named Described : String → Prop) (Head : MemberHead → Prop)
    (Whole Atom : TypeExpr → Prop) : Prop where
  plain {s : String} (h : ∀ c ∈ s.toList, isBare c = true) (hsemicolon : ';' ∉ s.toList) : Atom (.ofString s)
  quoted {s : String} (h : Named s) : Atom (.word (style.quoteChars s.toList))
  head {schema : Json} {name : String} {isOptional : Bool} (hname : Named name)
    (hdescription : ∀ d, schema.getString? "description" = some d → Described d) :
    Head ⟨docLines? schema, name, isOptional⟩
  array {item : TypeExpr} (h : Operand Whole Atom item) : Atom (.array item)
  tuple {items : List TypeExpr} {rest : Option TypeExpr} (h : ∀ e ∈ items, Whole e)
    (hrest : ∀ e ∈ rest, Operand Whole Atom e) : Atom (.tuple items rest)
  object {members : List (MemberHead × TypeExpr)} {index : Option TypeExpr} (hhead : ∀ m ∈ members, Head m.1)
    (h : ∀ m ∈ members, Whole m.2)
    (hindex : ∀ e ∈ index, Whole e ∨ ∃ es, e = .join es ∧ 2 ≤ es.length ∧ ∀ x ∈ es, Whole x) :
    Atom (.object members index)
  atom {e : TypeExpr} (h : Atom e) : Whole e
  paren {e : TypeExpr} (h : Whole e) : Whole (.paren e)
  join {es : List TypeExpr} (hlength : 2 ≤ es.length) (h : ∀ e ∈ es, Operand Whole Atom e) : Whole (.join es)
  meet {es : List TypeExpr} (hlength : 2 ≤ es.length) (h : ∀ e ∈ es, Operand Whole Atom e) : Whole (.meet es)
  parenthesize {e : TypeExpr} (h : Whole e) : Operand Whole Atom (e.parenthesize style)
  strip {e : TypeExpr} (h : Contribution Whole Atom e) : Whole (e.strip style)

/-- The members that are kept are members. -/
theorem mem_of_mem_distinctBy {style : Style} {e : TypeExpr} :
    ∀ {members : List TypeExpr} {seen : List (List Char)},
      e ∈ TypeExpr.distinctBy style seen members → e ∈ members
  | [], _, h => by simp [TypeExpr.distinctBy] at h
  | m :: rest, seen, h => by
      unfold TypeExpr.distinctBy at h
      simp only at h
      split at h
      · exact List.mem_cons_of_mem m (mem_of_mem_distinctBy h)
      · rcases List.mem_cons.mp h with rfl | h
        · exact List.mem_cons_self
        · exact List.mem_cons_of_mem m (mem_of_mem_distinctBy h)

/-- A union is empty, one of its members, or a choice among several of them. -/
theorem union_cases (style : Style) (members : List TypeExpr) :
    TypeExpr.union style members = .never ∨ TypeExpr.union style members ∈ members
      ∨ ∃ es, TypeExpr.union style members = .join es ∧ 2 ≤ es.length ∧ ∀ e ∈ es, e ∈ members := by
  have hkept : ∀ e ∈ TypeExpr.distinctBy style [] members, e ∈ members := fun _ => mem_of_mem_distinctBy
  unfold TypeExpr.union
  cases hes : TypeExpr.distinctBy style [] members with
  | nil => exact .inl rfl
  | cons e rest =>
      rw [hes] at hkept
      cases rest with
      | nil => exact .inr (.inl (hkept e List.mem_cons_self))
      | cons f rest => exact .inr (.inr ⟨_, rfl, by simp, hkept⟩)

namespace Makes

variable {style : Style} {Named Described : String → Prop} {Head : MemberHead → Prop}
  {Whole Atom : TypeExpr → Prop} (M : Makes style Named Described Head Whole Atom)

include M

theorem operand {e : TypeExpr} (h : Operand Whole Atom e) : Whole e := by
  rcases h with h | ⟨inner, rfl, h⟩
  · exact M.atom h
  · exact M.paren h

theorem contribution {e : TypeExpr} (h : Contribution Whole Atom e) : Whole e := by
  rcases h with h | ⟨es, rfl, hlength, h⟩
  · exact M.operand h
  · exact M.join hlength fun e he => .inl (h e he)

theorem atom_unknown : Atom .unknown := M.plain (by decide) (by decide)

theorem atom_never : Atom .never := M.plain (by decide) (by decide)

/-- A constant. -/
theorem atom_literal : ∀ {v : Json}, (∀ s, v = .str s → Named s) → Atom (literal style v)
  | .str s, h => M.quoted (h s rfl)
  | .num n, _ => M.plain (fun c hc => bare_of (by decide) (Layout.numeral_toText n c hc)) fun hc =>
      absurd (Layout.numeral_toText n _ hc) (by decide)
  | .bool true, _ => M.plain (by decide) (by decide)
  | .bool false, _ => M.plain (by decide) (by decide)
  | .null, _ => M.plain (by decide) (by decide)
  | .arr _, _ => M.atom_unknown
  | .obj _, _ => M.atom_unknown

/-! ## Putting types together -/

/-- The union of atoms. -/
theorem contribution_union {members : List TypeExpr} (h : ∀ e ∈ members, Atom e) :
    Contribution Whole Atom (.union style members) := by
  rcases union_cases style members with heq | hmem | ⟨es, heq, hlength, hes⟩
  · exact .inl (.inl (heq ▸ M.atom_never))
  · exact .inl (.inl (h _ hmem))
  · exact .inr ⟨es, heq, hlength, fun e he => h e (hes e he)⟩

/-- The union of operands. -/
theorem whole_union {members : List TypeExpr} (h : ∀ e ∈ members, Operand Whole Atom e) :
    Whole (.union style members) := by
  rcases union_cases style members with heq | hmem | ⟨es, heq, hlength, hes⟩
  · exact heq ▸ M.atom M.atom_never
  · exact M.operand (h _ hmem)
  · rw [heq]
    exact M.join hlength fun e he => h e (hes e he)

/-- What is contributed as one type: the whole of one, in no parentheses, or several in theirs. -/
theorem whole_meetOf {es : List TypeExpr} (h : ∀ e ∈ es, Contribution Whole Atom e) :
    Whole (meetOf style es) := by
  match es, h with
  | [], _ => exact M.atom M.atom_unknown
  | [e], h => exact M.strip (h e List.mem_cons_self)
  | e :: f :: rest, h =>
      refine M.meet (by simp) fun x hx => ?_
      obtain ⟨y, hy, rfl⟩ := List.mem_map.mp hx
      exact M.parenthesize (M.contribution (h y hy))

end Makes

/-! ## Results -/

/-- What is collected came from what was there. -/
theorem of_mem_collect {α β : Type} {f : α → Except Fault β} :
    ∀ {as : List α} {bs : List β}, collect f as = .ok bs → ∀ b ∈ bs, ∃ a ∈ as, f a = .ok b
  | [], bs, h, b, hb => by
      obtain rfl := Except.ok.inj h
      simp at hb
  | a :: rest, bs, h, b, hb => by
      obtain ⟨first, hfirst, h⟩ := bind_eq_ok h
      obtain ⟨more, hmore, h⟩ := bind_eq_ok h
      obtain rfl := Except.ok.inj h
      rcases List.mem_cons.mp hb with rfl | hb
      · exact ⟨a, List.mem_cons_self, hfirst⟩
      · obtain ⟨x, hx, heq⟩ := of_mem_collect hmore b hb
        exact ⟨x, List.mem_cons_of_mem a hx, heq⟩

/-- A member that is a list, or an object. -/
theorem get?_of_asItems? {schema : Json} {name : String} {items : List Json}
    (h : (schema.get? name).bind Json.asItems? = some items) : schema.get? name = some (.arr items) := by
  obtain ⟨v, hv, hitems⟩ := Option.bind_eq_some_iff.mp h
  cases v with
  | arr items' =>
      obtain rfl := Option.some.inj hitems
      exact hv
  | _ => exact absurd hitems (by simp [Json.asItems?])

theorem get?_of_asMembers? {schema : Json} {name : String} {members : Json.Members}
    (h : (schema.get? name).bind Json.asMembers? = some members) :
    schema.get? name = some (.obj members) := by
  obtain ⟨v, hv, hmembers⟩ := Option.bind_eq_some_iff.mp h
  cases v with
  | obj members' =>
      obtain rfl := Option.some.inj hmembers
      exact hv
  | _ => exact absurd hmembers (by simp [Json.asMembers?])

/-! ## One level -/

/-- The type of all members that are not named, beside what `additionalProperties` says of them. -/
def indexBeside (style : Style) (rec : Json → Result) (schema : Json) (hasProperties : Bool)
    (others : List TypeExpr) : Except Fault (Option TypeExpr) :=
  match (schema.get? "patternProperties").bind Json.asMembers? with
  | some patterns => do
    let patterns ← collect (fun (p : String × Json) => rec p.2) patterns
    match others ++ patterns with
    | [] => pure none
    | members => pure (some (if hasProperties then .unknown else .union style members))
  | none => do
    let patterns ← (pure [] : Except Fault (List TypeExpr))
    match others ++ patterns with
    | [] => pure none
    | members => pure (some (if hasProperties then .unknown else .union style members))

namespace Makes

variable {style : Style} {Named Described : String → Prop} {Head : MemberHead → Prop}
  {Whole Atom : TypeExpr → Prop} (M : Makes style Named Described Head Whole Atom)
  {rec : Json → Result} {schema : Json}

/-- The type of the members that are not named: whole, or a choice among whole types. -/
def Index (Whole : TypeExpr → Prop) (index : Option TypeExpr) : Prop :=
  ∀ e ∈ index, Whole e ∨ ∃ es, e = .join es ∧ 2 ≤ es.length ∧ ∀ x ∈ es, Whole x

/-- The types of all members that `patternProperties` names. -/
theorem whole_patterns (hrec : ∀ t, Part schema t → ∀ e, rec t = .ok e → Whole e)
    {patterns : Json.Members} (hpatterns : (schema.get? "patternProperties").bind Json.asMembers? = some patterns)
    {types : List TypeExpr} (h : collect (fun (p : String × Json) => rec p.2) patterns = .ok types) :
    ∀ e ∈ types, Whole e := by
  intro e he
  obtain ⟨p, hp, heq⟩ := of_mem_collect h e he
  exact hrec p.2 (.pattern (get?_of_asMembers? hpatterns) hp) e heq

include M

/-- The type of members that several schemas speak of. -/
theorem index_union {members : List TypeExpr} (hmembers : ∀ e ∈ members, Whole e) {hasProperties : Bool}
    {index : Option TypeExpr}
    (h : (match members with
      | [] => (pure none : Except Fault (Option TypeExpr))
      | members => pure (some (if hasProperties then .unknown else .union style members))) = .ok index) :
    Index Whole index := by
  split at h
  · obtain rfl := Except.ok.inj h
    exact nofun
  · obtain rfl := Except.ok.inj h
    intro e he
    obtain rfl := Option.mem_some.mp he
    split
    · exact .inl (M.atom M.atom_unknown)
    · rcases union_cases style members with heq | hmem | ⟨es, heq, hlength, hes⟩
      · exact .inl (heq ▸ M.atom M.atom_never)
      · exact .inl (hmembers _ hmem)
      · exact .inr ⟨es, heq, hlength, fun e he => hmembers e (hes e he)⟩

theorem index_indexBeside (hrec : ∀ t, Part schema t → ∀ e, rec t = .ok e → Whole e) {hasProperties : Bool}
    {others : List TypeExpr} (hothers : ∀ e ∈ others, Whole e) {index : Option TypeExpr}
    (h : indexBeside style rec schema hasProperties others = .ok index) : Index Whole index := by
  unfold indexBeside at h
  split at h
  · next patterns hpatterns =>
    obtain ⟨types, htypes, h⟩ := bind_eq_ok h
    refine M.index_union (fun e he => ?_) h
    exact (List.mem_append.mp he).elim (hothers e) (whole_patterns hrec hpatterns htypes e)
  · obtain ⟨types, htypes, h⟩ := bind_eq_ok h
    obtain rfl := Except.ok.inj htypes
    refine M.index_union (fun e he => ?_) h
    exact (List.mem_append.mp he).elim (hothers e) (fun he => absurd he (by simp))

/-- The type of all members that are not named. -/
theorem index_indexType (hrec : ∀ t, Part schema t → ∀ e, rec t = .ok e → Whole e) {hasProperties : Bool}
    {index : Option TypeExpr} (h : indexType style rec schema hasProperties = .ok index) :
    Index Whole index := by
  have hunknown : Index Whole (some .unknown) := fun e he => .inl (Option.mem_some.mp he ▸ M.atom M.atom_unknown)
  unfold indexType at h
  cases hadditional : schema.get? "additionalProperties" with
  | none =>
      simp only [hadditional] at h
      obtain rfl := Except.ok.inj h
      exact hunknown
  | some additional =>
      cases additional with
      | bool b =>
          cases b with
          | true =>
              simp only [hadditional] at h
              obtain rfl := Except.ok.inj h
              exact hunknown
          | false =>
              simp only [hadditional] at h
              have hnone : ∀ e ∈ ([] : List TypeExpr), Whole e := by simp
              exact M.index_indexBeside hrec hnone h
      | _ =>
          simp only [hadditional] at h
          obtain ⟨e', he', h⟩ := bind_eq_ok h
          have hone : ∀ e ∈ [e'], Whole e := by
            simpa using hrec _ (.others hadditional) e' he'
          exact M.index_indexBeside hrec hone h

/-- An object type. -/
theorem atom_objectType (hnames : Names Named schema) (hparts : ∀ t, Part schema t → Brings Named Described t)
    (hrec : ∀ t, Part schema t → ∀ e, rec t = .ok e → Whole e) {e : TypeExpr}
    (h : objectType style rec schema = .ok e) : Atom e := by
  obtain ⟨members, hmembers, h⟩ := bind_eq_ok h
  obtain ⟨index, hindex, h⟩ := bind_eq_ok h
  obtain rfl := Except.ok.inj h
  have hmember : ∀ m ∈ members, Head m.1 ∧ Whole m.2 := by
    intro m hm
    obtain ⟨p, hp, heq⟩ := of_mem_collect hmembers m hm
    obtain ⟨e, he, heq⟩ := bind_eq_ok heq
    obtain rfl := Except.ok.inj heq
    have hpart : Part schema p.2 := .property hp
    exact ⟨M.head (hnames.name p.1 p.2 hp) (hparts p.2 hpart).description, hrec p.2 hpart e he⟩
  exact M.object (fun m hm => (hmember m hm).1) (fun m hm => (hmember m hm).2) (M.index_indexType hrec hindex)

/-- An array or tuple type. -/
theorem atom_arrayType (hrec : ∀ t, Part schema t → ∀ e, rec t = .ok e → Whole e) {e : TypeExpr}
    (h : arrayType style rec schema = .ok e) : Atom e := by
  unfold arrayType at h
  split at h
  · obtain rfl := Except.ok.inj h
    exact M.array (.inl M.atom_unknown)
  · next items hitems =>
    obtain ⟨members, hmembers, h⟩ := bind_eq_ok h
    have hwhole : ∀ e ∈ members, Whole e := by
      intro e he
      obtain ⟨t, ht, heq⟩ := of_mem_collect hmembers e he
      exact hrec t (.item hitems ht) e heq
    split at h
    · obtain rfl := Except.ok.inj h
      exact M.tuple hwhole nofun
    · obtain rfl := Except.ok.inj h
      exact M.tuple hwhole fun e he => .inl (Option.mem_some.mp he ▸ M.atom_unknown)
    · obtain rfl := Except.ok.inj h
      exact M.tuple hwhole fun e he => .inl (Option.mem_some.mp he ▸ M.atom_unknown)
    · next t _ _ hrest =>
      obtain ⟨e', he', h⟩ := bind_eq_ok h
      obtain rfl := Except.ok.inj h
      have hoperand := M.parenthesize (hrec t (.rest hrest) e' he')
      exact M.tuple hwhole fun e he => Option.mem_some.mp he ▸ hoperand
  · next t _ hitem =>
    obtain ⟨e', he', h⟩ := bind_eq_ok h
    obtain rfl := Except.ok.inj h
    exact M.array (M.parenthesize (hrec t (.items hitem) e' he'))

/-- The type for one word of `type`. -/
theorem atom_namedType (hnames : Names Named schema) (hparts : ∀ t, Part schema t → Brings Named Described t)
    (hrec : ∀ t, Part schema t → ∀ e, rec t = .ok e → Whole e) {name : String} {e : TypeExpr}
    (h : namedType style rec schema name = .ok e) : Atom e := by
  unfold namedType at h
  split at h
  case h_6 => exact M.atom_arrayType hrec h
  case h_7 => exact M.atom_objectType hnames hparts hrec h
  case h_8 => exact absurd h (by simp)
  all_goals
    obtain rfl := Except.ok.inj h
    exact M.plain (by decide) (by decide)

/-- The type by `const`, `enum` or `type`. -/
theorem contribution_baseType (hnames : Names Named schema)
    (hparts : ∀ t, Part schema t → Brings Named Described t)
    (hrec : ∀ t, Part schema t → ∀ e, rec t = .ok e → Whole e) {base : Option TypeExpr}
    (h : baseType style rec schema = .ok base) : ∀ e ∈ base, Contribution Whole Atom e := by
  unfold baseType at h
  split at h
  · next v hconst =>
    obtain rfl := Except.ok.inj h
    have hatom := M.atom_literal (v := v) fun s hs => hnames.const s (hs ▸ hconst)
    exact fun e he => .inl (.inl (Option.mem_some.mp he ▸ hatom))
  split at h
  · next values hvalues =>
    obtain rfl := Except.ok.inj h
    have hunion : Contribution Whole Atom (.union style (values.map (literal style))) := by
      refine M.contribution_union fun e he => ?_
      obtain ⟨v, hv, rfl⟩ := List.mem_map.mp he
      exact M.atom_literal fun s hs => hnames.enum values s (get?_of_asItems? hvalues) (hs ▸ hv)
    exact fun e he => Option.mem_some.mp he ▸ hunion
  split at h
  · obtain rfl := Except.ok.inj h
    exact nofun
  · obtain ⟨members, hmembers, h⟩ := bind_eq_ok h
    obtain rfl := Except.ok.inj h
    have hunion : Contribution Whole Atom (.union style members) := by
      refine M.contribution_union fun e he => ?_
      obtain ⟨name, -, heq⟩ := of_mem_collect hmembers e he
      exact M.atom_namedType hnames hparts hrec heq
    exact fun e he => Option.mem_some.mp he ▸ hunion

/-- The types of a list of schemas. -/
theorem operand_memberTypes (hrec : ∀ t, Part schema t → ∀ e, rec t = .ok e → Whole e) {keyword : String}
    (hkeyword : keyword ∈ ["allOf", "anyOf", "oneOf"]) {types : Option (List TypeExpr)}
    (h : memberTypes style rec schema keyword = .ok types) :
    ∀ es ∈ types, ∀ e ∈ es, Operand Whole Atom e := by
  unfold memberTypes at h
  split at h
  · obtain rfl := Except.ok.inj h
    exact nofun
  · next subs hsubs =>
    obtain ⟨members, hmembers, h⟩ := bind_eq_ok h
    obtain rfl := Except.ok.inj h
    intro es hes e he
    obtain rfl := Option.mem_some.mp hes
    obtain ⟨t, ht, heq⟩ := of_mem_collect hmembers e he
    obtain ⟨e', he', rfl⟩ := map_eq_ok heq
    exact M.parenthesize (hrec t (.branch hkeyword (get?_of_asItems? hsubs) ht) e' he')

/-- The part that `anyOf` or `oneOf` contributes. -/
theorem operand_choiceType (hrec : ∀ t, Part schema t → ∀ e, rec t = .ok e → Whole e) {keyword : String}
    (hkeyword : keyword ∈ ["allOf", "anyOf", "oneOf"]) {es : List TypeExpr}
    (h : choiceType style rec schema keyword = .ok es) : ∀ e ∈ es, Operand Whole Atom e := by
  obtain ⟨types, htypes, h⟩ := bind_eq_ok h
  have hoperands := M.operand_memberTypes hrec hkeyword htypes
  split at h
  · obtain rfl := Except.ok.inj h
    exact nofun
  · next members =>
    obtain rfl := Except.ok.inj h
    intro e he
    obtain rfl := List.mem_singleton.mp he
    exact M.parenthesize (M.whole_union (hoperands members rfl))

/-- All parts of a schema. -/
theorem contribution_partsOf (hnames : Names Named schema)
    (hparts : ∀ t, Part schema t → Brings Named Described t)
    (hrec : ∀ t, Part schema t → ∀ e, rec t = .ok e → Whole e) {es : List TypeExpr}
    (h : partsOf style rec schema = .ok es) : ∀ e ∈ es, Contribution Whole Atom e := by
  obtain ⟨base, hbase, h⟩ := bind_eq_ok h
  obtain ⟨all, hall, h⟩ := bind_eq_ok h
  obtain ⟨any, hany, h⟩ := bind_eq_ok h
  obtain ⟨one, hone, h⟩ := bind_eq_ok h
  obtain rfl := Except.ok.inj h
  intro e he
  simp only [List.mem_append] at he
  rcases he with ((he | he) | he) | he
  · exact M.contribution_baseType hnames hparts hrec hbase e (by simpa using he)
  · cases all with
    | none => simp at he
    | some es => exact .inl (M.operand_memberTypes hrec (by simp) hall es rfl e he)
  · exact .inl (M.operand_choiceType hrec (by simp) hany e he)
  · exact .inl (M.operand_choiceType hrec (by simp) hone e he)

/-- **One level.**  The type of a schema is whole if those of its parts and of its reference are. -/
theorem whole_typeOf (hnames : Names Named schema) (hparts : ∀ t, Part schema t → Brings Named Described t)
    (hrec : ∀ t, Part schema t → ∀ e, rec t = .ok e → Whole e) {reference : String → Result}
    (hreference : ∀ r, schema.get? "$ref" = some (.str r) → ∀ e, reference r = .ok e → Whole e)
    {e : TypeExpr} (h : typeOf style reference rec schema = .ok e) : Whole e := by
  unfold typeOf at h
  split at h
  · obtain rfl := Except.ok.inj h
    exact M.atom M.atom_unknown
  · obtain rfl := Except.ok.inj h
    exact M.atom M.atom_never
  · split at h
    · next r hr => exact hreference r hr e h
    · exact absurd h (by simp)
    · obtain ⟨es, hes, rfl⟩ := map_eq_ok h
      exact M.whole_meetOf (M.contribution_partsOf hnames hparts hrec hes)
  · exact absurd h (by simp)

end Makes

/-! ## All levels -/

/-- Schemas among which the compiler stays, with texts and hints of which a predicate holds. -/
structure Scope.Stays (scope : Scope) (Named Described : String → Prop) (Whole : TypeExpr → Prop)
    (Good : Json → Prop) : Prop where
  step {s t : Json} (hs : Good s) (h : scope.Reads s t) : Good t
  brings {s : Json} (hs : Good s) : Brings Named Described s
  hint {s : Json} (hs : Good s) : ∀ h, s.getString? typeHintKey = some h → Whole (.ofString h)
  name : ∀ r name, scope.names.lookup r = some name → Whole (.ofString name)

/-- A body whose type is whole; a constant enum has none. -/
def Body.Satisfies (Whole : TypeExpr → Prop) : Body → Prop
  | .constEnum _ => True
  | .interface type => Whole type
  | .alias type => Whole type

namespace Makes

variable {scope : Scope} {Named Described : String → Prop} {Head : MemberHead → Prop}
  {Whole Atom : TypeExpr → Prop} {Good : Json → Prop}

/-- A type by a hint, or by the rest of the schema. -/
theorem whole_hinted {rest : Json → Result} {schema : Json}
    (hhint : ∀ h, schema.getString? typeHintKey = some h → Whole (.ofString h))
    (hrest : ∀ e, rest schema = .ok e → Whole e) {e : TypeExpr}
    (h : hinted rest schema = .ok e) : Whole e := by
  unfold hinted at h
  split at h
  · next hint heq =>
    obtain rfl := Except.ok.inj h
    exact hhint hint heq
  · exact hrest e h

variable (M : Makes scope.style Named Described Head Whole Atom) (S : scope.Stays Named Described Whole Good)

include M S

/-- The types of schemas among which the compiler stays, of any height. -/
theorem whole_levels {reference : String → Result}
    (hreference : ∀ s, Good s → ∀ r, s.get? "$ref" = some (.str r) → ∀ e, reference r = .ok e → Whole e) :
    ∀ (fuel : Nat) {s : Json}, Good s → ∀ e, levels scope.style reference fuel s = .ok e → Whole e
  | 0, s, hs, e, h => by
      refine whole_hinted (S.hint hs) (fun e h => ?_) h
      exact M.whole_typeOf (S.brings hs).toNames (fun t ht => S.brings (S.step hs (.part ht)))
        (fun t _ e h => absurd h (by simp)) (hreference s hs) h
  | fuel + 1, s, hs, e, h => by
      refine whole_hinted (S.hint hs) (fun e h => ?_) h
      exact M.whole_typeOf (S.brings hs).toNames (fun t ht => S.brings (S.step hs (.part ht)))
        (fun t ht => whole_levels hreference fuel (S.step hs (.part ht))) (hreference s hs) h

/-- The type of a reference, however deep it may be followed. -/
theorem whole_reference : ∀ (remaining : Nat) {s : Json}, (∀ t, scope.Reads s t → Good t) →
    ∀ r, s.get? "$ref" = some (.str r) → ∀ e, scope.reference remaining r = .ok e → Whole e := by
  intro remaining
  induction remaining with
  | zero =>
      intro s hs r hr e h
      unfold Scope.reference at h
      split at h
      · obtain rfl := Except.ok.inj h
        exact M.atom M.atom_unknown
      split at h
      · next name hname =>
        obtain rfl := Except.ok.inj h
        exact S.name r name hname
      · exact absurd h (by simp)
  | succ remaining ih =>
      intro s hs r hr e h
      unfold Scope.reference at h
      split at h
      · obtain rfl := Except.ok.inj h
        exact M.atom M.atom_unknown
      · next hne =>
        split at h
        · next name hname =>
          obtain rfl := Except.ok.inj h
          exact S.name r name hname
        · next hnone =>
          simp only at h
          split at h
          · exact absurd h (by simp)
          · next target htarget =>
            have hgood : Good target := hs target (.target hr (by simpa using hne) hnone htarget)
            exact M.whole_levels S (fun s hs => ih fun t ht => S.step hs ht) _ hgood e h

/-- The type of a schema of the document. -/
theorem whole_expr {s : Json} (hs : Good s) : ∀ e, scope.expr s = .ok e → Whole e :=
  M.whole_levels S (fun _ hs => M.whole_reference S maxInline fun _ ht => S.step hs ht) _ hs

/-- **Every declared type is whole**, if the compiler stays among good schemas from the parts of the declared
schema on.  Of the schema itself neither a type hint nor the description counts. -/
theorem whole_declare {options : Options} {name : String} {schema : Json} (hnames : Names Named schema)
    (hreads : ∀ t, scope.Reads schema t → Good t) {d : Declaration}
    (h : declare scope options name schema = .ok d) : d.body.Satisfies Whole := by
  have hparts : ∀ t, Part schema t → Good t := fun t ht => hreads t (.part ht)
  have hexpr : ∀ t, Part schema t → ∀ e, scope.expr t = .ok e → Whole e := fun t ht =>
    M.whole_expr S (hparts t ht)
  unfold declare at h
  split at h
  · obtain rfl := Except.ok.inj h
    trivial
  split at h
  · obtain ⟨type, htype, rfl⟩ := map_eq_ok h
    exact M.atom (M.atom_objectType hnames (fun t ht => S.brings (hparts t ht)) hexpr htype)
  · obtain ⟨type, htype, rfl⟩ := map_eq_ok h
    exact M.whole_typeOf hnames (fun t ht => S.brings (hparts t ht)) hexpr
      (M.whole_reference S maxInline hreads) htype

end Makes

/-! ## Declarations -/

/-- A declaration has the name that it is given, and the comment of its schema. -/
theorem head_of_declare {scope : Scope} {options : Options} {name : String} {schema : Json} {d : Declaration}
    (h : declare scope options name schema = .ok d) : d.name = name ∧ d.doc = docLines? schema := by
  unfold declare at h
  split at h
  · obtain rfl := Except.ok.inj h
    exact ⟨rfl, rfl⟩
  split at h
  · obtain ⟨type, -, rfl⟩ := map_eq_ok h
    exact ⟨rfl, rfl⟩
  · obtain ⟨type, -, rfl⟩ := map_eq_ok h
    exact ⟨rfl, rfl⟩

/-- What is declared is the container, or comes from a definition. -/
theorem declare_of_mem {naming : Naming} {policy : CollisionPolicy} {options : Options} {rootName : String}
    {schema : Json} {named : List Definition} {ds : List Declaration}
    (hnamed : definitionsOf naming policy schema = .ok named)
    (h : compile naming policy options rootName schema = .ok ds) {d : Declaration} (hd : d ∈ ds) :
    let scope : Scope := ⟨schema, options.style, referenceNames named⟩
    declare scope options rootName (container schema) = .ok d
      ∨ ∃ definition ∈ named, declare scope options definition.name definition.schema = .ok d := by
  unfold compile at h
  obtain ⟨named', hnamed', h⟩ := bind_eq_ok h
  obtain rfl : named = named' := Except.ok.inj (hnamed.symm.trans hnamed')
  obtain ⟨root, hroot, h⟩ := bind_eq_ok h
  obtain ⟨declarations, hdeclarations, h⟩ := bind_eq_ok h
  obtain rfl := Except.ok.inj h
  rcases List.mem_cons.mp hd with rfl | hd
  · exact .inl hroot
  · obtain ⟨definition, hdefinition, heq⟩ := of_mem_collect hdeclarations d hd
    refine .inr ⟨definition, ?_, heq⟩
    split at hdefinition
    · exact hdefinition
    · exact (List.mem_filter.mp hdefinition).1

end DecoderForge.Types
