import DecoderForge.Proofs.Types.NamesInText

/-!
# DecoderForge — the declarations that a schema reaches

Definitions that the schema around them does not refer to may be left out.  Which ones these are is found
by looking for references in the keywords of that schema and in the definitions found so far.  The text of the
declarations goes another way: it follows the reference that the schema itself may be, and it goes through
references that stand for no definition into whatever they lead to.  The two ways meet except in these places.

## The architecture

* **`closedKeys_followed`** — following long enough, no definition is missed.
* **`mem_kept_of_names`** — what is referred to where the search has been is declared.
* **`Scope.visits_cases`** — where the text comes from: from the container itself, from where the search has
  been, or from a target outside.
* **`not_strays_of_answered`** — where every reference stands for a definition there are no such targets.
* **`closed_of_compile_iff`** — when no declaration refers to a definition that is left out.
-/

namespace DecoderForge.Types

/-! ## Following references -/

/-- Keys with all those that the definitions under them refer to. -/
def ClosedKeys (entries : Json.Members) (seen : List String) : Prop :=
  ∀ e ∈ entries, e.1 ∈ seen → keysNamed (entries.map Prod.fst) e.2.references ⊆ seen

/-- Keys, and behind them those that the definitions under them refer to. -/
def nextKeys (entries : Json.Members) (seen : List String) : List String :=
  let inside := (entries.filter fun e => seen.contains e.1).flatMap fun e => e.2.references
  seen ++ (keysNamed (entries.map Prod.fst) inside).filter fun k => !seen.contains k

theorem followed_succ (entries : Json.Members) (n : Nat) (seen : List String) :
    followed entries (n + 1) seen = followed entries n (nextKeys entries seen) := rfl

theorem mem_keysNamed {keys refs : List String} {k : String} :
    k ∈ keysNamed keys refs ↔ k ∈ keys ∧ ∃ r ∈ spellings k, r ∈ refs := by
  unfold keysNamed
  simp [List.mem_filter]

theorem subset_nextKeys (entries : Json.Members) (seen : List String) : seen ⊆ nextKeys entries seen :=
  List.subset_append_left _ _

/-- The keys that one definition refers to come next. -/
theorem mem_nextKeys {entries : Json.Members} {seen : List String} {e : String × Json} (he : e ∈ entries)
    (hseen : e.1 ∈ seen) {k : String} (hk : k ∈ keysNamed (entries.map Prod.fst) e.2.references) :
    k ∈ nextKeys entries seen := by
  by_cases hold : k ∈ seen
  · exact subset_nextKeys entries seen hold
  obtain ⟨hkey, r, hr, hmem⟩ := mem_keysNamed.mp hk
  apply List.mem_append_right
  refine List.mem_filter.mpr ⟨mem_keysNamed.mpr ⟨hkey, r, hr, ?_⟩, by simpa using hold⟩
  exact List.mem_flatMap.mpr ⟨e, List.mem_filter.mpr ⟨he, by simpa using hseen⟩, hmem⟩

/-- What comes next was there or is referred to by a definition. -/
theorem of_mem_nextKeys {entries : Json.Members} {seen : List String} {k : String}
    (h : k ∈ nextKeys entries seen) :
    k ∈ seen ∨ ∃ e ∈ entries, e.1 ∈ seen ∧ k ∈ keysNamed (entries.map Prod.fst) e.2.references := by
  rcases List.mem_append.mp h with h | h
  · exact .inl h
  obtain ⟨hkey, r, hr, hmem⟩ := mem_keysNamed.mp (List.mem_filter.mp h).1
  obtain ⟨e, he, hmem⟩ := List.mem_flatMap.mp hmem
  obtain ⟨he, hseen⟩ := List.mem_filter.mp he
  exact .inr ⟨e, he, by simpa using hseen, mem_keysNamed.mpr ⟨hkey, r, hr, hmem⟩⟩

theorem subset_followed (entries : Json.Members) :
    ∀ (n : Nat) (seen : List String), seen ⊆ followed entries n seen
  | 0, _ => List.Subset.refl _
  | n + 1, seen => by
      rw [followed_succ]
      exact List.Subset.trans (subset_nextKeys entries seen) (subset_followed entries n _)

/-- Keys that are closed stay so. -/
theorem ClosedKeys.next {entries : Json.Members} {seen : List String} (h : ClosedKeys entries seen) :
    ClosedKeys entries (nextKeys entries seen) := by
  have hback : nextKeys entries seen ⊆ seen := by
    intro k hk
    rcases of_mem_nextKeys hk with hk | ⟨e, he, hseen, hk⟩
    · exact hk
    · exact h e he hseen hk
  intro e he hseen
  exact List.Subset.trans (h e he (hback hseen)) (subset_nextKeys entries seen)

/-- How many keys have not been seen. -/
def unseen (entries : Json.Members) (seen : List String) : Nat :=
  (entries.map Prod.fst).countP fun k => !seen.contains k

/-- As long as keys are not closed, a new one comes next. -/
theorem unseen_nextKeys_lt {entries : Json.Members} {seen : List String} (h : ¬ ClosedKeys entries seen) :
    unseen entries (nextKeys entries seen) < unseen entries seen := by
  unfold ClosedKeys at h
  push Not at h
  obtain ⟨e, he, hseen, hmissed⟩ := h
  obtain ⟨k, hk, hnew⟩ : ∃ k ∈ keysNamed (entries.map Prod.fst) e.2.references, k ∉ seen := by
    by_contra hno
    push Not at hno
    exact hmissed hno
  have hnext : k ∈ nextKeys entries seen := mem_nextKeys he hseen hk
  have hkey : k ∈ entries.map Prod.fst := (mem_keysNamed.mp hk).1
  unfold unseen
  rw [List.countP_eq_length_filter, List.countP_eq_length_filter]
  have hsublist : ((entries.map Prod.fst).filter fun k => !(nextKeys entries seen).contains k).Sublist
      ((entries.map Prod.fst).filter fun k => !seen.contains k) := by
    apply List.monotone_filter_right
    intro x hx
    have hx : x ∉ nextKeys entries seen := by simpa using hx
    simpa using fun hold => hx (subset_nextKeys entries seen hold)
  -- the new key stands in the one list and not in the other
  refine Nat.lt_of_le_of_ne hsublist.length_le fun heq => ?_
  have hmem : k ∈ (entries.map Prod.fst).filter fun k => !seen.contains k :=
    List.mem_filter.mpr ⟨hkey, by simpa using hnew⟩
  rw [← hsublist.eq_of_length heq] at hmem
  have hno := (List.mem_filter.mp hmem).2
  exact absurd hnext (by simpa using hno)

/-- **Following long enough, no definition is missed.**  Each round closes the keys or sees a new one. -/
theorem closedKeys_followed {entries : Json.Members} :
    ∀ {n : Nat} {seen : List String}, ClosedKeys entries seen ∨ unseen entries seen ≤ n →
      ClosedKeys entries (followed entries n seen)
  | 0, seen, h => by
      rcases h with h | h
      · exact h
      intro e _ _ k hk
      have hzero : unseen entries seen = 0 := Nat.le_zero.mp h
      have hall := List.countP_eq_zero.mp hzero k (mem_keysNamed.mp hk).1
      show k ∈ seen
      simpa using hall
  | n + 1, seen, h => by
      rw [followed_succ]
      apply closedKeys_followed
      -- a round that sees nothing new has closed the keys, and later rounds leave them as they are
      by_cases hclosed : ClosedKeys entries seen
      · exact .inl hclosed.next
      · have hlt := unseen_nextKeys_lt hclosed
        have hle := h.resolve_left hclosed
        exact .inr (by omega)

/-- The keys that the schema around the definitions refers to are among those that are reached, and the keys
that are reached are closed. -/
theorem closedKeys_reachableKeys (root : Json) (entries : Json.Members) :
    keysNamed (entries.map Prod.fst) (rootReferences root) ⊆ reachableKeys root entries
      ∧ ClosedKeys entries (reachableKeys root entries) := by
  refine ⟨subset_followed entries _ _, closedKeys_followed (.inr ?_)⟩
  have hle := List.countP_le_length (p := fun k => !(keysNamed (entries.map Prod.fst) (rootReferences root)).contains k)
    (l := entries.map Prod.fst)
  rwa [List.length_map] at hle

/-! ## Where references are looked for -/

/-- What is inside an object is the value of a member or inside of one. -/
theorem exists_member_of_inside {t : Json} {members : Json.Members} (h : Json.Inside t (.obj members)) :
    ∃ m ∈ members, t = m.2 ∨ Json.Inside t m.2 := by
  generalize hb : Json.obj members = b at h
  induction h with
  | item _ => exact absurd hb (by simp)
  | member h =>
      obtain rfl := Json.obj.inj hb
      exact ⟨_, h, .inl rfl⟩
  | trans hab _ _ ih =>
      obtain ⟨m, hm, rfl | hinside⟩ := ih hb
      · exact ⟨m, hm, .inr hab⟩
      · exact ⟨m, hm, .inr (.trans hab hinside)⟩

/-- The definitions that are declared where others may be left out. -/
def keptOf (schema : Json) (named : List Definition) : List Definition :=
  named.filter fun d => (reachableKeys schema (named.map fun d => (d.key, d.schema))).contains d.key

/-- The schemas in which references are looked for: those inside the schema around the definitions, and the
definitions that are declared with those inside them. -/
def Searched (schema : Json) (kept : List Definition) (t : Json) : Prop :=
  Json.Inside t (container schema) ∨ ∃ d ∈ kept, t = d.schema ∨ Json.Inside t d.schema

theorem Searched.of_inside {schema : Json} {kept : List Definition} {s t : Json}
    (hs : Searched schema kept s) (h : Json.Inside t s) : Searched schema kept t := by
  rcases hs with hs | ⟨d, hd, rfl | hs⟩
  · exact .inl (.trans h hs)
  · exact .inr ⟨d, hd, .inr h⟩
  · exact .inr ⟨d, hd, .inr (.trans h hs)⟩

theorem mem_references_of_get? {t : Json} {r : String} (h : t.get? "$ref" = some (.str r)) :
    r ∈ t.references := by
  cases t with
  | obj members =>
      rw [Json.references]
      exact Json.mem_referencesOfMembers (Json.mem_of_get? h)
  | null | bool _ | num _ | str _ | arr _ => exact absurd h (by simp [Json.get?])

/-- The search sees the reference of every schema that it passes. -/
theorem mem_references_of_searched {schema : Json} {kept : List Definition} {t : Json}
    (ht : Searched schema kept t) {r : String} (h : t.get? "$ref" = some (.str r)) :
    r ∈ rootReferences schema ∨ ∃ d ∈ kept, r ∈ d.schema.references := by
  have hr := mem_references_of_get? h
  rcases ht with ht | ⟨d, hd, rfl | ht⟩
  · refine .inl ?_
    obtain ⟨members, hmembers⟩ : ∃ members, container schema = .obj members := by
      cases schema with
      | obj members => exact ⟨_, rfl⟩
      | null | bool _ | num _ | str _ | arr _ => exact ⟨_, rfl⟩
    unfold rootReferences
    rw [hmembers] at ht ⊢
    obtain ⟨m, hm, ht⟩ := exists_member_of_inside ht
    refine List.mem_flatMap.mpr ⟨m, hm, ?_⟩
    rcases ht with rfl | ht
    · exact hr
    · exact ht.references_subset hr
  · exact .inr ⟨d, hd, hr⟩
  · exact .inr ⟨d, hd, ht.references_subset hr⟩

/-- **What is referred to where the search has been is declared.** -/
theorem mem_kept_of_names {schema : Json} {named : List Definition} {scope : Scope}
    (hnames : scope.names = referenceNames named) {t : Json} (ht : Searched schema (keptOf schema named) t)
    {name : String} (h : scope.StandsFor t name) : name ∈ (keptOf schema named).map Definition.name := by
  obtain ⟨r, hr, -, hlookup⟩ := h
  rw [hnames] at hlookup
  obtain ⟨d, hd, hspelled, rfl⟩ := mem_referenceNames.mp (mem_of_lookup hlookup)
  obtain ⟨hroot, hclosed⟩ := closedKeys_reachableKeys schema (named.map fun d => (d.key, d.schema))
  have hkey : d.key ∈ (named.map fun d => (d.key, d.schema)).map Prod.fst := by
    rw [List.map_map]
    exact List.mem_map_of_mem hd
  have hreached : d.key ∈ reachableKeys schema (named.map fun d => (d.key, d.schema)) := by
    rcases mem_references_of_searched ht hr with hmem | ⟨d', hd', hmem⟩
    · exact hroot (mem_keysNamed.mpr ⟨hkey, r, hspelled, hmem⟩)
    · obtain ⟨hd', hseen⟩ := List.mem_filter.mp hd'
      exact hclosed (d'.key, d'.schema) (List.mem_map_of_mem hd') (by simpa using hseen)
        (mem_keysNamed.mpr ⟨hkey, r, hspelled, hmem⟩)
  exact List.mem_map_of_mem (List.mem_filter.mpr ⟨hd, by simpa using hreached⟩)

/-! ## Where the text comes from -/

/-- A target that is written out in the place of its reference, and that the search has not passed. -/
def Scope.Strays (scope : Scope) (schema : Json) (kept : List Definition) (s t : Json) : Prop :=
  ∃ u r, scope.Visits s u ∧ u.get? "$ref" = some (.str r) ∧ r ≠ "#" ∧ scope.names.lookup r = none
    ∧ resolveLocal? scope.root r = some t ∧ t.getString? typeHintKey = none ∧ ¬ Searched schema kept t

/-- One step from the container or from where the search has been. -/
theorem Scope.searched_or_strays {scope : Scope} {schema : Json} {kept : List Definition} {s t u : Json}
    (ht : scope.Visits s t) (hpassed : t = container schema ∨ Searched schema kept t) (h : scope.Enters t u) :
    Searched schema kept u ∨ scope.Strays schema kept s u := by
  obtain ⟨hfollows, hhint⟩ := h
  cases hfollows with
  | ingredient _ hpart =>
      refine .inl ?_
      rcases hpassed with rfl | hpassed
      · exact .inl hpart.part.inside
      · exact hpassed.of_inside hpart.part.inside
  | target h hne hnone hresolve =>
      by_cases hu : Searched schema kept u
      · exact .inl hu
      · exact .inr ⟨t, _, ht, h, hne, hnone, hresolve, hhint, hu⟩

/-- **Where the text of a declaration comes from**: from the container itself if it is the container that is
declared, from where the search has been, or from what is below a target that is written out. -/
theorem Scope.visits_cases {scope : Scope} {schema : Json} {kept : List Definition} {s t : Json}
    (hs : s ∈ container schema :: kept.map Definition.schema) (h : scope.Visits s t) :
    (s = container schema ∧ t = s) ∨ Searched schema kept t
      ∨ ∃ u, scope.Strays schema kept s u ∧ scope.Visits u t := by
  induction h with
  | refl =>
      rcases List.mem_cons.mp hs with rfl | hs
      · exact .inl ⟨rfl, rfl⟩
      · obtain ⟨d, hd, rfl⟩ := List.mem_map.mp hs
        exact .inr (.inl (.inr ⟨d, hd, .inl rfl⟩))
  | @tail t _ hvisits hstep ih =>
      have hpassed : (t = container schema ∨ Searched schema kept t)
          ∨ ∃ u, scope.Strays schema kept s u ∧ scope.Visits u t := by
        rcases ih with ⟨rfl, rfl⟩ | hsearched | hbelow
        · exact .inl (.inl rfl)
        · exact .inl (.inr hsearched)
        · exact .inr hbelow
      rcases hpassed with hpassed | ⟨u, hu, hbelow⟩
      · rcases Scope.searched_or_strays hvisits hpassed hstep with hsearched | hstrays
        · exact .inr (.inl hsearched)
        · exact .inr (.inr ⟨_, hstrays, .refl⟩)
      -- below a target the way may go on anywhere, the searched places included
      · exact .inr (.inr ⟨u, hu, hbelow.tail hstep⟩)

theorem Scope.Strays.visits {scope : Scope} {schema : Json} {kept : List Definition} {s t : Json}
    (h : scope.Strays schema kept s t) : scope.Visits s t := by
  obtain ⟨u, r, hu, hr, hne, hnone, hresolve, hhint, -⟩ := h
  exact hu.tail ⟨.target hr hne hnone hresolve, hhint⟩

/-! ## Schemas that write out no target -/

/-- The reference of a schema that a declaration is written from stands in the schema around it. -/
theorem mem_references_of_visits {naming : Naming} {policy : CollisionPolicy} {schema : Json}
    {named : List Definition} (hnamed : definitionsOf naming policy schema = .ok named) {scope : Scope}
    (hroot : scope.root = schema) {s t : Json} (hs : s ∈ container schema :: named.map Definition.schema)
    (h : scope.Visits s t) {r : String} (hr : t.get? "$ref" = some (.str r)) : r ∈ schema.references := by
  have hmem := mem_references_of_get? hr
  rcases Relation.reflTransGen_iff_eq_or_transGen.mp h with rfl | hbelow
  · rcases List.mem_cons.mp hs with rfl | hs
    · cases schema with
      | obj members =>
          rw [Json.references]
          exact Json.mem_referencesOfMembers (List.filter_subset_self _ (Json.mem_of_get? hr))
      | null | bool _ | num _ | str _ | arr _ => exact absurd hr (by simp [container, Json.get?, Json.Members.get?])
    · obtain ⟨d, hd, rfl⟩ := List.mem_map.mp hs
      exact (inside_of_mem_named hnamed hd).references_subset hmem
  · have hreads : Relation.TransGen scope.Reads s t := hbelow.lift id fun _ _ h => h.1.reads
    rcases inside_of_reads hnamed hroot hs hreads with rfl | hinside
    · exact hmem
    · exact hinside.references_subset hmem

/-- Where every reference is answered no target is written out. -/
theorem not_strays_of_answered {naming : Naming} {policy : CollisionPolicy} {schema : Json}
    {named : List Definition} (hnamed : definitionsOf naming policy schema = .ok named) {scope : Scope}
    (hroot : scope.root = schema) (hanswered : ∀ r ∈ schema.references, r = "#" ∨ scope.names.lookup r ≠ none)
    {kept : List Definition} {s t : Json} (hs : s ∈ container schema :: named.map Definition.schema) :
    ¬ scope.Strays schema kept s t := by
  rintro ⟨u, r, hu, hr, hne, hnone, -⟩
  rcases hanswered r (mem_references_of_visits hnamed hroot hs hu hr) with rfl | hsome
  · exact hne rfl
  · exact hsome hnone

/-! ## Closed declarations -/

/-- The names of definitions that the text of a declaration refers to.  A constant enum refers to none. -/
def Scope.RefersTo (scope : Scope) (options : Options) (s : Json) (name : String) : Prop :=
  constEnum? options s = none ∧ scope.Mentions s name

/-- What is compiled where definitions may be left out: the container, then each definition that is reached. -/
theorem declares_of_compile {naming : Naming} {policy : CollisionPolicy} {options : Options}
    (hoptions : options.unreachableDefinitions = false) {rootName : String} {schema : Json}
    {declarations : List Declaration}
    (h : compile naming policy options rootName schema = .ok declarations) :
    ∃ named, definitionsOf naming policy schema = .ok named
      ∧ List.Forall₂ (fun s (d : Declaration) =>
          declare ⟨schema, options.style, referenceNames named⟩ options d.name s = .ok d)
        (container schema :: (keptOf schema named).map Definition.schema) declarations
      ∧ declarations.map Declaration.name = rootName :: (keptOf schema named).map Definition.name := by
  unfold compile at h
  obtain ⟨named, hnamed, h⟩ := bind_eq_ok h
  obtain ⟨root, hroot, h⟩ := bind_eq_ok h
  obtain ⟨more, hmore, h⟩ := bind_eq_ok h
  obtain rfl : root :: more = declarations := Except.ok.inj h
  rw [hoptions] at hmore
  have hall := forall₂_collect hmore
  refine ⟨named, hnamed, .cons ?_ ?_, ?_⟩
  · rw [(head_of_declare hroot).1]
    exact hroot
  · refine List.forall₂_map_left_iff.mpr (hall.imp fun d declaration hdeclare => ?_)
    rw [(head_of_declare hdeclare).1]
    exact hdeclare
  · rw [List.map_cons, (head_of_declare hroot).1, map_name_of_declares hall]
    rfl

/-- **When no declaration refers to a definition that is left out.**  The definitions that are declared are
some of all, in their order, and what a declaration refers to stands in its text.  The declarations, with that of
the container, are closed exactly if the definition is declared that the schema itself is a reference to, and so are
all to which the targets outside the search refer that are written out in the place of a reference.  Nothing else is
missed. -/
theorem closed_of_compile_iff {naming : Naming} {policy : CollisionPolicy} {options : Options}
    (hoptions : options.unreachableDefinitions = false) {rootName : String} {schema : Json}
    {declarations : List Declaration}
    (h : compile naming policy options rootName schema = .ok declarations) :
    ∃ named, definitionsOf naming policy schema = .ok named ∧ (keptOf schema named).Sublist named ∧
      let scope : Scope := ⟨schema, options.style, referenceNames named⟩
      let sources := container schema :: (keptOf schema named).map Definition.schema
      let declared := declarations.map Declaration.name
      List.Forall₂ (fun s (d : Declaration) => declare scope options d.name s = .ok d
          ∧ ∀ name, scope.RefersTo options s name → name.toList <:+: (d.source options.style).toList)
        sources declarations
        ∧ declared = rootName :: (keptOf schema named).map Definition.name
        ∧ ((∀ s ∈ sources, ∀ name, scope.RefersTo options s name → name ∈ declared)
          ↔ (constEnum? options (container schema) = none →
              ∀ name, scope.StandsFor (container schema) name → name ∈ declared)
            ∧ ∀ s ∈ sources, constEnum? options s = none → ∀ t, scope.Strays schema (keptOf schema named) s t →
              ∀ name, scope.Mentions t name → name ∈ declared) := by
  obtain ⟨named, hnamed, hall, hnames⟩ := declares_of_compile hoptions h
  refine ⟨named, hnamed, List.filter_sublist, ?_, hnames, ?_⟩
  · refine hall.imp fun s d hd => ⟨hd, ?_⟩
    rintro name ⟨henum, hname⟩
    exact infix_source_of_mentions hnamed rfl henum hname hd
  constructor
  · intro hclosed
    refine ⟨fun hnone name hname => ?_, fun s hs hnone t ht name hname => ?_⟩
    · exact hclosed _ List.mem_cons_self name ⟨hnone, _, .refl, hname⟩
    · obtain ⟨u, hu, hname⟩ := hname
      exact hclosed s hs name ⟨hnone, u, ht.visits.trans hu, hname⟩
  · rintro ⟨hown, hstrays⟩ s hs name ⟨hnone, t, ht, hname⟩
    rcases Scope.visits_cases hs ht with ⟨rfl, rfl⟩ | hsearched | ⟨u, hu, hbelow⟩
    · exact hown hnone name hname
    · rw [hnames]
      exact List.mem_cons_of_mem _ (mem_kept_of_names rfl hsearched hname)
    · exact hstrays s hs hnone u hu name ⟨t, hbelow, hname⟩

/-- A schema with a property that refers to the first of two definitions. -/
def linkedSchema : Json :=
  .obj [("properties", .obj [("a", .obj [("$ref", .str "#/definitions/A")])]),
    (definitionsKey, .obj [("A", .obj [("type", .str "string")]), ("B", .obj [("type", .str "number")])])]

/-- Its definitions with their identifiers. -/
def namedLinkedSchema : List Definition :=
  [⟨"A", "A", .obj [("type", .str "string")]⟩, ⟨"B", "B", .obj [("type", .str "number")]⟩]

/-- There the second definition is left out, and no declaration refers to it. -/
theorem closed_of_compile_linked :
    compile {} .error { unreachableDefinitions := false } TypeCompiler.containerName linkedSchema
        = .ok [⟨TypeCompiler.containerName, none,
            .interface (.object [(⟨none, "a", true⟩, .ofString "A")] (some .unknown))⟩,
          ⟨"A", none, .alias (.ofString "string")⟩]
      ∧ ∀ s ∈ [container linkedSchema, .obj [("type", .str "string")]], ∀ name,
        (⟨linkedSchema, {}, referenceNames namedLinkedSchema⟩ : Scope).RefersTo
            { unreachableDefinitions := false } s name →
          name ∈ [TypeCompiler.containerName, "A"] := by
  have hcompile : compile {} .error { unreachableDefinitions := false } TypeCompiler.containerName linkedSchema
      = .ok [⟨TypeCompiler.containerName, none,
          .interface (.object [(⟨none, "a", true⟩, .ofString "A")] (some .unknown))⟩,
        ⟨"A", none, .alias (.ofString "string")⟩] := rfl
  have hnamed : definitionsOf {} .error linkedSchema = .ok namedLinkedSchema := rfl
  obtain ⟨named, hnamed', -, -, -, hclosed⟩ := closed_of_compile_iff rfl hcompile
  obtain rfl : namedLinkedSchema = named := Except.ok.inj (hnamed.symm.trans hnamed')
  have hkept : keptOf linkedSchema namedLinkedSchema = [⟨"A", "A", .obj [("type", .str "string")]⟩] := rfl
  refine ⟨hcompile, hclosed.mpr ⟨fun _ name hname => ?_, fun s hs _ t ht => ?_⟩⟩
  · obtain ⟨r, hr, -⟩ := hname
    have habsent : (container linkedSchema).get? "$ref" = none := rfl
    exact absurd hr (by simp [habsent])
  · refine absurd ht (not_strays_of_answered hnamed rfl (by decide) ?_)
    rw [hkept] at hs
    exact List.cons_subset_cons _ (by simp [namedLinkedSchema]) hs

/-- A schema that is a reference to its only definition. -/
def referringSchema : Json :=
  .obj [("$ref", .str "#/definitions/A"), (definitionsKey, .obj [("A", .obj [("type", .str "string")])])]

/-- **The reference that the schema itself is gets lost**: the one declaration refers to the definition, which is
left out. -/
theorem own_reference_undeclared :
    ∃ declarations, compile {} .error { unreachableDefinitions := false } TypeCompiler.containerName
          referringSchema = .ok declarations
      ∧ definitionsOf {} .error referringSchema = .ok [⟨"A", "A", .obj [("type", .str "string")]⟩]
      ∧ (⟨referringSchema, {}, referenceNames [⟨"A", "A", .obj [("type", .str "string")]⟩]⟩ : Scope).RefersTo
          { unreachableDefinitions := false } (container referringSchema) "A"
      ∧ "A" ∉ declarations.map Declaration.name
      ∧ declarations.map (Declaration.source {}) = ["export type GeneratedContainerSchema = A;"] := by
  refine ⟨[⟨TypeCompiler.containerName, none, .alias (.ofString "A")⟩], rfl, rfl, ?_, by decide, rfl⟩
  exact ⟨rfl, container referringSchema, .refl, "#/definitions/A", rfl, by decide, rfl⟩

end DecoderForge.Types
