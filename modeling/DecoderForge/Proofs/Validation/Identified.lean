import DecoderForge.Proofs.Result
import DecoderForge.Proofs.Validation.LocalReference

/-!
# DecoderForge — documents under two drafts

A draft decides which member of a schema is its identifier, and nothing else about where a reference leads.  Two
drafts that see the same identifiers in a document find the same schemas in it, all of them in the document.

## The architecture

* **`Draft.IdentifyAlike`** — drafts that see the same identifiers in a value and inside it.
* **`Document.InRoot`** — values in a document; **`Document.Closed`**, its named schemas are among them.
* **`Document.ofSchema_congr`**, **`Document.resolve_congr`** — both drafts make the same document and look it up
  alike.
* **`Document.inRoot_of_resolve`** — a look-up does not leave the document.
-/

namespace DecoderForge

/-- Drafts that see the same identifiers in a value and inside it. -/
def Draft.IdentifyAlike (a b : Draft) (t : Json) : Prop := ∀ x, x = t ∨ x.Inside t → schemaId? a x = schemaId? b x

theorem Draft.IdentifyAlike.inside {a b : Draft} {t u : Json} (h : a.IdentifyAlike b t) (hu : u.Inside t) :
    a.IdentifyAlike b u := by
  rintro x (rfl | hx)
  · exact h _ (Or.inr hu)
  · exact h x (Or.inr (hx.trans hu))

namespace Document

variable {a b : Draft}

/-! ## Named schemas -/

theorem namedInItems_congr {base : Url} {items : List Json}
    (h : ∀ v ∈ items, namedSchemas a base v = namedSchemas b base v) :
    namedInItems a base items = namedInItems b base items := by
  induction items with
  | nil => rw [namedInItems, namedInItems]
  | cons v rest ih =>
      obtain ⟨hv, hrest⟩ := List.forall_mem_cons.mp h
      rw [namedInItems, namedInItems, hv, ih hrest]

theorem namedInMembers_congr {base : Url} {members : Json.Members}
    (h : ∀ m ∈ members, namedSchemas a base m.2 = namedSchemas b base m.2) :
    namedInMembers a base members = namedInMembers b base members := by
  induction members with
  | nil => rw [namedInMembers, namedInMembers]
  | cons m rest ih =>
      obtain ⟨hm, hrest⟩ := List.forall_mem_cons.mp h
      rw [namedInMembers, namedInMembers, hm, ih hrest]

/-- **The same schemas have names** under two drafts that see the same identifiers. -/
theorem namedSchemas_congr (t : Json) (h : a.IdentifyAlike b t) :
    ∀ base, namedSchemas a base t = namedSchemas b base t := by
  -- the URL around changes on the way down, so it is not fixed in the induction
  induction t using Json.inside_induction with
  | _ t ih =>
  intro base
  cases t with
  | arr items =>
      rw [namedSchemas, namedSchemas]
      exact namedInItems_congr fun v hv => ih v (.item hv) (h.inside (.item hv)) base
  | obj members =>
      have hmembers : ∀ base, namedInMembers a base members = namedInMembers b base members := fun base =>
        namedInMembers_congr fun m hm => ih m.2 (.member hm) (h.inside (.member hm)) base
      rw [namedSchemas, namedSchemas, h _ (Or.inl rfl)]
      simp only [hmembers]
  | null | bool _ | num _ | str _ => rw [namedSchemas.eq_def, namedSchemas.eq_def]

section Inside

variable {draft : Draft}

theorem mem_of_namedInItems {items : List Json} {base : Url} : ∀ {named : List (String × Json)},
    namedInItems draft base items = .ok named → ∀ e ∈ named, ∃ v ∈ items, ∃ inner,
      namedSchemas draft base v = .ok inner ∧ e ∈ inner := by
  induction items with
  | nil =>
      intro named h
      rw [namedInItems] at h
      obtain rfl := Except.ok.inj h
      simp
  | cons v rest ih =>
      intro named h e he
      rw [namedInItems] at h
      obtain ⟨first, hfirst, h⟩ := bind_eq_ok h
      obtain ⟨more, hmore, h⟩ := bind_eq_ok h
      obtain rfl := Except.ok.inj h
      rcases List.mem_append.mp he with he | he
      · exact ⟨v, List.mem_cons_self, first, hfirst, he⟩
      · obtain ⟨w, hw, hinner⟩ := ih hmore e he
        exact ⟨w, List.mem_cons_of_mem v hw, hinner⟩

theorem mem_of_namedInMembers {members : Json.Members} {base : Url} : ∀ {named : List (String × Json)},
    namedInMembers draft base members = .ok named → ∀ e ∈ named, ∃ m ∈ members, ∃ inner,
      namedSchemas draft base m.2 = .ok inner ∧ e ∈ inner := by
  induction members with
  | nil =>
      intro named h
      rw [namedInMembers] at h
      obtain rfl := Except.ok.inj h
      simp
  | cons m rest ih =>
      obtain ⟨k, v⟩ := m
      intro named h e he
      have hlater : ∀ {more}, namedInMembers draft base rest = .ok more → e ∈ more →
          ∃ m ∈ (k, v) :: rest, ∃ inner, namedSchemas draft base m.2 = .ok inner ∧ e ∈ inner := by
        intro more hmore he
        obtain ⟨w, hw, hinner⟩ := ih hmore e he
        exact ⟨w, List.mem_cons_of_mem (k, v) hw, hinner⟩
      rw [namedInMembers] at h
      -- a constant has no schemas in it
      split at h
      · obtain ⟨first, hfirst, h⟩ := bind_eq_ok h
        obtain ⟨more, hmore, h⟩ := bind_eq_ok h
        obtain rfl := Except.ok.inj hfirst
        obtain rfl := Except.ok.inj h
        exact hlater hmore he
      · obtain ⟨first, hfirst, h⟩ := bind_eq_ok h
        obtain ⟨more, hmore, h⟩ := bind_eq_ok h
        obtain rfl := Except.ok.inj h
        rcases List.mem_append.mp he with he | he
        · exact ⟨(k, v), List.mem_cons_self, first, hfirst, he⟩
        · exact hlater hmore he

/-- **A schema that has a name in a value** is this value or inside it. -/
theorem inside_of_namedSchemas (t : Json) : ∀ {base : Url} {named : List (String × Json)},
    namedSchemas draft base t = .ok named → ∀ e ∈ named, e.2 = t ∨ e.2.Inside t := by
  induction t using Json.inside_induction with
  | _ t ih =>
  have hpart : ∀ v, v.Inside t → ∀ {base inner}, namedSchemas draft base v = .ok inner → ∀ e ∈ inner, e.2.Inside t := by
    intro v hv base inner hinner e he
    rcases ih v hv hinner e he with heq | hinside
    · exact heq ▸ hv
    · exact hinside.trans hv
  intro base named h e he
  cases t with
  | arr items =>
      rw [namedSchemas] at h
      obtain ⟨v, hv, inner, hinner, he⟩ := mem_of_namedInItems h e he
      exact Or.inr (hpart v (.item hv) hinner e he)
  | obj members =>
      have hmembers : ∀ {base inner}, namedInMembers draft base members = .ok inner → ∀ e ∈ inner,
          e.2.Inside (.obj members) := by
        intro base inner hinner e he
        obtain ⟨m, hm, inner, hinner, he⟩ := mem_of_namedInMembers hinner e he
        exact hpart m.2 (.member hm) hinner e he
      rw [namedSchemas] at h
      split at h
      · obtain ⟨url, -, h⟩ := bind_eq_ok h
        obtain ⟨inner, hinner, h⟩ := bind_eq_ok h
        obtain rfl := Except.ok.inj h
        rcases List.mem_cons.mp he with rfl | he
        · exact Or.inl rfl
        · exact Or.inr (hmembers hinner e he)
      · exact Or.inr (hmembers h e he)
  | null | bool _ | num _ | str _ =>
      rw [namedSchemas.eq_def] at h
      obtain rfl := Except.ok.inj h
      exact absurd he (by simp)

end Inside

/-! ## Documents -/

/-- A value in a document: the whole of it, or a value inside. -/
def InRoot (d : Document) (t : Json) : Prop := t = d.root ∨ t.Inside d.root

/-- The schemas of a document that have names are in it. -/
def Closed (d : Document) : Prop := ∀ e ∈ d.named, d.InRoot e.2

theorem InRoot.inside {d : Document} {t u : Json} (h : d.InRoot t) (hu : u.Inside t) : d.InRoot u := by
  rcases h with rfl | h
  · exact Or.inr hu
  · exact Or.inr (hu.trans h)

theorem identifyAlike_of_inRoot {d : Document} {t : Json} (h : a.IdentifyAlike b d.root) (ht : d.InRoot t) :
    a.IdentifyAlike b t := by
  rcases ht with rfl | ht
  · exact h
  · exact h.inside ht

/-- The URL of a document by the identifier of its root. -/
def rootScope : Option String → Except Url.Fault Url
  | some id => Url.read none id
  | none => .ok defaultScope

theorem ofSchema_eq (draft : Draft) (root : Json) : ofSchema draft root
    = rootScope (schemaId? draft root) >>= fun scope =>
        (namedSchemas draft scope root).map fun named => ⟨draft, root, scope, named⟩ := by
  unfold ofSchema rootScope
  cases schemaId? draft root with
  | none => cases namedSchemas draft defaultScope root <;> rfl
  | some id =>
      dsimp only
      cases Url.read none id with
      | error f => rfl
      | ok scope => cases namedSchemas draft scope root <;> rfl

/-- What a document is made of. -/
theorem eq_of_ofSchema {draft : Draft} {root : Json} {d : Document} (h : ofSchema draft root = .ok d) :
    d.draft = draft ∧ d.root = root ∧ d.Closed := by
  rw [ofSchema_eq] at h
  obtain ⟨scope, -, h⟩ := bind_eq_ok h
  obtain ⟨named, hnamed, rfl⟩ := map_eq_ok h
  exact ⟨rfl, rfl, inside_of_namedSchemas root hnamed⟩

/-- **Two drafts that see the same identifiers make the same document.** -/
theorem ofSchema_congr {root : Json} (h : a.IdentifyAlike b root) :
    ofSchema b root = (ofSchema a root).map fun d => { d with draft := b } := by
  rw [ofSchema_eq, ofSchema_eq, h root (Or.inl rfl)]
  cases rootScope (schemaId? b root) with
  | error f => rfl
  | ok scope =>
      simp only [bind, Except.bind, namedSchemas_congr root h]
      cases namedSchemas b scope root <;> rfl

theorem enter_congr {t : Json} (h : schemaId? a t = schemaId? b t) (scope : Url) : enter a scope t = enter b scope t := by
  unfold enter
  rw [h]

/-! ## Look-up -/

theorem descend_congr : ∀ (tokens : List (List Char)) {j : Json}, a.IdentifyAlike b j →
    descend a j tokens = descend b j tokens
  | [], _, _ => rfl
  | token :: tokens, j, h => by
      rw [descend, descend, h j (Or.inl rfl)]
      cases hchild : j.child? token with
      | none => rfl
      | some k => rw [Option.bind_some, Option.bind_some, descend_congr tokens (h.inside (Json.inside_of_child? hchild))]

theorem atPointer_congr {j : Json} (h : a.IdentifyAlike b j) (pointer : List Char) :
    atPointer a j pointer = atPointer b j pointer := by
  unfold atPointer
  split
  · exact descend_congr _ h
  · rfl

theorem inside_of_atPointer {draft : Draft} {j t : Json} {pointer : List Char} {ids : List String}
    (h : atPointer draft j pointer = some (ids, t)) : t = j ∨ t.Inside j := by
  unfold atPointer at h
  split at h
  · next rest =>
    have hdown := map_snd_descend draft ((Text.splitAt '/' rest).map Pointer.unescapeToken) j
    rw [h] at hdown
    exact Json.inside_of_descend? hdown.symm
  · exact absurd h (by simp)

theorem inRoot_of_document? {d : Document} (hclosed : d.Closed) {url : Url} {t : Json} (h : d.document? url = some t) :
    d.InRoot t := by
  unfold document? at h
  split at h
  · exact Or.inl (Option.some.inj h).symm
  · exact hclosed _ (List.mem_reverse.mp (@Json.mem_of_get? d.named.reverse _ t h))

/-- **A look-up does not leave the document.** -/
theorem inRoot_of_resolve {d : Document} (hclosed : d.Closed) {url scope : Url} {t : Json}
    (h : d.resolve url = .ok (scope, t)) : d.InRoot t := by
  unfold resolve at h
  obtain ⟨fragment, -, h⟩ := bind_eq_ok h
  split at h
  · next schema hnamed =>
    obtain ⟨-, rfl⟩ := Prod.mk.inj (Except.ok.inj h)
    exact hclosed _ (@Json.mem_of_get? d.named _ schema hnamed)
  · split at h
    · exact absurd h (by simp [throw, throwThe, MonadExceptOf.throw])
    · next document hdocument =>
      have hin := inRoot_of_document? hclosed hdocument
      split at h
      · obtain ⟨-, rfl⟩ := Prod.mk.inj (Except.ok.inj h)
        exact hin
      · split at h
        · exact absurd h (by simp [throw, throwThe, MonadExceptOf.throw])
        · next ids schema hpointer =>
          obtain ⟨inner, -, h⟩ := bind_eq_ok h
          obtain ⟨-, rfl⟩ := Prod.mk.inj (Except.ok.inj h)
          rcases inside_of_atPointer hpointer with rfl | hinside
          · exact hin
          · exact hin.inside hinside

/-- **Two drafts that see the same identifiers look a document up alike.** -/
theorem resolve_congr {d : Document} (hclosed : d.Closed) (h : d.draft.IdentifyAlike b d.root) (url : Url) :
    { d with draft := b }.resolve url = d.resolve url := by
  have hpointer : ∀ {document}, d.document? url.withoutFragment = some document → ∀ p,
      atPointer b document p = atPointer d.draft document p := fun hfound p =>
    (atPointer_congr (identifyAlike_of_inRoot h (inRoot_of_document? hclosed hfound)) p).symm
  have hdocument : ∀ u, { d with draft := b }.document? u = d.document? u := fun _ => rfl
  unfold resolve
  -- only the way down to a fragment looks at the draft
  simp only [hdocument]
  cases hfound : d.document? url.withoutFragment with
  | none => rfl
  | some document => simp only [hpointer hfound]

end Document

end DecoderForge
