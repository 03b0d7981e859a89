import DecoderForge.Proofs.Schema.Names

/-!
# DecoderForge — which definition stops an enumeration

An enumeration ends at the first entry that gets no identifier.  Which one that is, and with which error,
can be said of the entries alone: an entry without letters and numbers in its raw name, or, where taken
identifiers are refused, an entry whose identifier belongs to one before it.

## The architecture

* **`Definitions.Refused`** — why an entry gets no identifier behind others.
* **`Definitions.Tracks`** — a table that knows the identifiers of the entries before.
* **`Definitions.enumerateFrom_eq_error_iff`** — the run: it fails at the first refused entry.
* **`Definitions.enumerate_outcome`** — what an enumeration gives, and when and why it gives nothing.
-/

namespace DecoderForge

/-! ## One entry -/

/-- A definition has no identifier when its raw name has neither letters nor numbers. -/
theorem Naming.derive_eq_error_iff {naming : Naming} {key : String} {schema : Json} {e : GenerateError} :
    naming.derive key schema = .error e
      ↔ naming.identifierChars? (rawName key schema).toList = none
        ∧ e = .invalidName (rawName key schema) := by
  unfold derive identifier
  cases naming.identifierChars? (rawName key schema).toList with
  | none => simp [eq_comm]
  | some cs => simp

/-- A claim fails when the identifier has an owner and the policy refuses taken ones. -/
theorem NameTable.claim_eq_error_iff {t : NameTable} {key derived : String} {e : GenerateError} :
    t.claim key derived = .error e
      ↔ t.policy = .error ∧ ∃ first, t.owner? derived = some first ∧ e = .nameCollision derived first key := by
  unfold claim
  cases howner : t.owner? derived with
  | none => simp
  | some first =>
      cases hpolicy : t.policy with
      | error => simp [eq_comm]
      | disambiguate => simp

/-- A policy that refuses taken identifiers gives out what was derived. -/
theorem NameTable.eq_of_claim {t t' : NameTable} (hpolicy : t.policy = .error) {key derived name : String}
    (h : t.claim key derived = .ok (name, t')) : name = derived := by
  unfold claim at h
  cases howner : t.owner? derived with
  | none =>
      rw [howner] at h
      exact (Prod.mk.inj (Except.ok.inj h)).1.symm
  | some first => simp [howner, hpolicy] at h

/-- After a record the recorded identifier has a new owner, any other the one it had. -/
theorem NameTable.owner?_record (t : NameTable) (name key other : String) :
    (t.record name key).owner? other = if other = name then some key else t.owner? other := by
  unfold owner? record
  rw [List.lookup_cons]
  by_cases h : other = name
  · simp [h]
  · simp [h, beq_false_of_ne h]

namespace Definitions

/-- Why an entry gets no identifier behind other entries. -/
inductive Refused (naming : Naming) (policy : CollisionPolicy) (before : Json.Members) (key : String)
    (schema : Json) : GenerateError → Prop where
  /-- Its raw name has neither letters nor numbers. -/
  | nameless (h : naming.identifierChars? (Naming.rawName key schema).toList = none) :
      Refused naming policy before key schema (.invalidName (Naming.rawName key schema))
  /-- Taken identifiers are refused, and its own belongs to an entry before it. -/
  | collision {name owner : String} {owned : Json} (hpolicy : policy = .error)
      (howner : (owner, owned) ∈ before) (howned : naming.derive owner owned = .ok name)
      (hname : naming.derive key schema = .ok name) :
      Refused naming policy before key schema (.nameCollision name owner key)

/-- No entry of a list is refused behind those before it and some others. -/
def Accepted (naming : Naming) (policy : CollisionPolicy) (before : Json.Members) : Json.Members → Prop
  | [] => True
  | (key, schema) :: rest =>
    (∀ e, ¬ Refused naming policy before key schema e)
      ∧ Accepted naming policy (before ++ [(key, schema)]) rest

/-- An entry refused behind others, as the first of a list. -/
def FirstRefused (naming : Naming) (policy : CollisionPolicy) (before entries : Json.Members)
    (e : GenerateError) : Prop :=
  ∃ accepted key schema after, entries = accepted ++ (key, schema) :: after
    ∧ Accepted naming policy before accepted
    ∧ Refused naming policy (before ++ accepted) key schema e

/-! ## One step -/

/-- A table whose owners are the entries before, where it refuses taken identifiers. -/
def Tracks (naming : Naming) (before : Json.Members) (t : NameTable) : Prop :=
  t.policy = .error → ∀ name first, t.owner? name = some first
    ↔ ∃ owned, (first, owned) ∈ before ∧ naming.derive first owned = .ok name

theorem tracks_nil (naming : Naming) (policy : CollisionPolicy) : Tracks naming [] ⟨policy, []⟩ := by
  intro _ name first
  simp [NameTable.owner?]

/-- An entry is refused when it derives no identifier or its claim fails. -/
theorem refused_iff {naming : Naming} {before : Json.Members} {t : NameTable}
    (ht : Tracks naming before t) {key : String} {schema : Json} {e : GenerateError} :
    Refused naming t.policy before key schema e
      ↔ naming.derive key schema = .error e
        ∨ ∃ derived, naming.derive key schema = .ok derived ∧ t.claim key derived = .error e := by
  constructor
  · rintro (⟨hnone⟩ | ⟨hpolicy, howner, howned, hname⟩)
    · exact Or.inl (Naming.derive_eq_error_iff.mpr ⟨hnone, rfl⟩)
    · refine Or.inr ⟨_, hname, NameTable.claim_eq_error_iff.mpr ⟨hpolicy, _, ?_, rfl⟩⟩
      exact (ht hpolicy _ _).mpr ⟨_, howner, howned⟩
  · rintro (hnone | ⟨derived, hname, hclaim⟩)
    · obtain ⟨hchars, rfl⟩ := Naming.derive_eq_error_iff.mp hnone
      exact .nameless hchars
    · obtain ⟨hpolicy, first, howner, rfl⟩ := NameTable.claim_eq_error_iff.mp hclaim
      obtain ⟨owned, hmem, howned⟩ := (ht hpolicy _ _).mp howner
      exact .collision hpolicy hmem howned hname

/-- A claim that succeeds keeps the table in step with the entries. -/
theorem Tracks.record {naming : Naming} {before : Json.Members} {t : NameTable}
    (ht : Tracks naming before t) {key derived name : String} {schema : Json}
    (hderive : naming.derive key schema = .ok derived)
    (hclaim : t.claim key derived = .ok (name, t.record name key)) :
    Tracks naming (before ++ [(key, schema)]) (t.record name key) := by
  intro hpolicy other first
  replace hpolicy : t.policy = .error := hpolicy
  obtain rfl : name = derived := NameTable.eq_of_claim hpolicy hclaim
  have hfree : t.owner? name = none := by
    have htaken := (NameTable.claim_eq_ok hclaim).1
    exact Option.not_isSome_iff_eq_none.mp (by rw [NameTable.taken] at htaken; simp [htaken])
  rw [NameTable.owner?_record]
  by_cases hname : other = name
  · subst hname
    rw [if_pos rfl]
    constructor
    · rintro ⟨⟩
      exact ⟨schema, by simp, hderive⟩
    · rintro ⟨owned, hmem, howned⟩
      rcases List.mem_append.mp hmem with hmem | hmem
      · -- an owner before would have made the claim fail
        have := (ht hpolicy other first).mpr ⟨owned, hmem, howned⟩
        rw [hfree] at this
        exact absurd this (by simp)
      · obtain ⟨rfl, rfl⟩ := Prod.mk.inj (List.mem_singleton.mp hmem)
        rfl
  · rw [if_neg hname, ht hpolicy]
    constructor
    · rintro ⟨owned, hmem, howned⟩
      exact ⟨owned, List.mem_append_left _ hmem, howned⟩
    · rintro ⟨owned, hmem, howned⟩
      rcases List.mem_append.mp hmem with hmem | hmem
      · exact ⟨owned, hmem, howned⟩
      · obtain ⟨rfl, rfl⟩ := Prod.mk.inj (List.mem_singleton.mp hmem)
        exact absurd (Except.ok.inj (howned.symm.trans hderive)) hname

/-- The first entry of a list is refused, or it is accepted and a later one is the first. -/
theorem firstRefused_cons_iff {naming : Naming} {policy : CollisionPolicy} {before : Json.Members}
    {key : String} {schema : Json} {rest : Json.Members} {e : GenerateError} :
    FirstRefused naming policy before ((key, schema) :: rest) e
      ↔ Refused naming policy before key schema e
        ∨ (∀ e', ¬ Refused naming policy before key schema e')
          ∧ FirstRefused naming policy (before ++ [(key, schema)]) rest e := by
  constructor
  · rintro ⟨accepted, k, s, after, hentries, haccepted, hrefused⟩
    cases accepted with
    | nil =>
        obtain ⟨⟨rfl, rfl⟩, -⟩ := List.cons.inj hentries
        exact Or.inl (by simpa using hrefused)
    | cons m accepted =>
        obtain ⟨rfl, rfl⟩ := List.cons.inj hentries
        exact Or.inr ⟨haccepted.1, accepted, k, s, after, rfl, haccepted.2, by simpa using hrefused⟩
  · rintro (hrefused | ⟨hfirst, accepted, k, s, after, rfl, haccepted, hrefused⟩)
    · exact ⟨[], key, schema, rest, rfl, trivial, by simpa using hrefused⟩
    · exact ⟨(key, schema) :: accepted, k, s, after, rfl, ⟨hfirst, haccepted⟩, by simpa using hrefused⟩

/-- How one step of the enumeration can fail. -/
theorem enumerateFrom_cons_eq_error_iff {naming : Naming} {t : NameTable} {key : String} {schema : Json}
    {rest : Json.Members} {e : GenerateError} :
    enumerateFrom naming t ((key, schema) :: rest) = .error e
      ↔ naming.derive key schema = .error e
        ∨ ∃ derived, naming.derive key schema = .ok derived
          ∧ (t.claim key derived = .error e
            ∨ ∃ name, t.claim key derived = .ok (name, t.record name key)
              ∧ enumerateFrom naming (t.record name key) rest = .error e) := by
  rw [enumerateFrom]
  cases hderive : naming.derive key schema with
  | error e' => simp [bind, Except.bind]
  | ok derived =>
      cases hclaim : t.claim key derived with
      | error e' => simp [bind, Except.bind, hclaim]
      | ok claimed =>
          obtain ⟨name, t'⟩ := claimed
          obtain ⟨-, rfl⟩ := NameTable.claim_eq_ok hclaim
          cases hrest : enumerateFrom naming (t.record name key) rest with
          | error e' => simp [bind, Except.bind, hclaim, hrest]
          | ok more => simp [bind, Except.bind, hclaim, hrest, pure, Except.pure]

/-! ## The run -/

/-- **An enumeration fails at the first refused entry**, with the error of that entry. -/
theorem enumerateFrom_eq_error_iff {naming : Naming} {e : GenerateError} :
    ∀ {entries before : Json.Members} {t : NameTable}, Tracks naming before t →
      (enumerateFrom naming t entries = .error e ↔ FirstRefused naming t.policy before entries e)
  | [], before, t, _ => by simp [enumerateFrom, FirstRefused]
  | (key, schema) :: rest, before, t, ht => by
      rw [enumerateFrom_cons_eq_error_iff, firstRefused_cons_iff, refused_iff ht]
      constructor
      · rintro (hnone | ⟨derived, hderive, hclaim | ⟨name, hclaim, hrest⟩⟩)
        · exact Or.inl (Or.inl hnone)
        · exact Or.inl (Or.inr ⟨derived, hderive, hclaim⟩)
        · -- the entry itself is accepted, since its claim succeeds
          have hnot : ∀ e', ¬ Refused naming t.policy before key schema e' := by
            intro e' hrefused
            rcases (refused_iff ht).mp hrefused with hnone | ⟨derived', hderive', hclaim'⟩
            · rw [hderive] at hnone
              exact absurd hnone (by simp)
            · obtain rfl := Except.ok.inj (hderive.symm.trans hderive')
              rw [hclaim] at hclaim'
              exact absurd hclaim' (by simp)
          exact Or.inr ⟨hnot, (enumerateFrom_eq_error_iff (ht.record hderive hclaim)).mp hrest⟩
      · rintro ((hnone | ⟨derived, hderive, hclaim⟩) | ⟨hnot, hrest⟩)
        · exact Or.inl hnone
        · exact Or.inr ⟨derived, hderive, Or.inl hclaim⟩
        · -- what is not refused derives an identifier and claims one
          cases hderive : naming.derive key schema with
          | error e' => exact absurd ((refused_iff ht).mpr (Or.inl hderive)) (hnot e')
          | ok derived =>
              cases hclaim : t.claim key derived with
              | error e' =>
                  exact absurd ((refused_iff ht).mpr (Or.inr ⟨derived, hderive, hclaim⟩)) (hnot e')
              | ok claimed =>
                  obtain ⟨name, t'⟩ := claimed
                  obtain ⟨-, rfl⟩ := NameTable.claim_eq_ok hclaim
                  exact Or.inr ⟨derived, rfl, Or.inr ⟨name, hclaim,
                    (enumerateFrom_eq_error_iff (ht.record hderive hclaim)).mpr hrest⟩⟩

/-- Where taken identifiers are refused, every definition has the identifier that it derives. -/
theorem derive_of_enumerateFrom {naming : Naming} :
    ∀ {entries : Json.Members} {t : NameTable} {ds : List Definition}, t.policy = .error →
      enumerateFrom naming t entries = .ok ds → ∀ d ∈ ds, naming.derive d.key d.schema = .ok d.name
  | [], t, ds, _, h => by
      obtain rfl : [] = ds := Except.ok.inj h
      simp
  | (key, schema) :: rest, t, ds, hpolicy, h => by
      obtain ⟨derived, name, more, hderive, hclaim, hmore, rfl⟩ := enumerateFrom_cons_eq_ok h
      obtain rfl : name = derived := NameTable.eq_of_claim hpolicy hclaim
      intro d hd
      rcases List.mem_cons.mp hd with rfl | hd
      · exact hderive
      · exact derive_of_enumerateFrom (t := t.record name key) hpolicy hmore d hd

/-- **What an enumeration gives.**  On success there is one definition for each entry, in order, and the
identifiers differ; where taken ones are refused they are those derived.  It fails exactly at the first
refused entry, and where taken identifiers get a number none is refused for a collision. -/
theorem enumerate_outcome (definitions : Definitions) (naming : Naming) (policy : CollisionPolicy) :
    (∀ ds, definitions.enumerate naming policy = .ok ds →
        ds.map (fun d => (d.key, d.schema)) = definitions.entries
          ∧ (ds.map Definition.name).Nodup
          ∧ (policy = .error → ∀ d ∈ ds, naming.derive d.key d.schema = .ok d.name))
      ∧ (∀ e, definitions.enumerate naming policy = .error e
          ↔ FirstRefused naming policy [] definitions.entries e)
      ∧ (policy = .disambiguate → ∀ name first second,
          definitions.enumerate naming policy ≠ .error (.nameCollision name first second)) := by
  have hfails (e : GenerateError) : definitions.enumerate naming policy = .error e
      ↔ FirstRefused naming policy [] definitions.entries e :=
    enumerateFrom_eq_error_iff (tracks_nil naming policy)
  refine ⟨fun ds h => ⟨entries_of_enumerate h, nodup_of_enumerate h, fun hpolicy => ?_⟩, hfails, ?_⟩
  · exact derive_of_enumerateFrom hpolicy h
  · intro hpolicy name first second h
    obtain ⟨_, _, _, _, _, _, hrefused⟩ := (hfails _).mp h
    cases hrefused with
    | collision hrefuses => exact absurd (hrefuses.symm.trans hpolicy) (by decide)

/-- Two definitions that derive the same identifier, with another between them. -/
def foos : Definitions := ⟨[("foo", .bool true), ("bar", .bool true), ("FOO", .bool true)], by simp⟩

/-- The third definition is refused for the first, or gets a number. -/
theorem enumerate_outcome_foos :
    FirstRefused {} .error [] foos.entries (.nameCollision "Foo" "foo" "FOO")
      ∧ foos.enumerate {} .disambiguate
          = .ok [⟨"foo", "Foo", .bool true⟩, ⟨"bar", "Bar", .bool true⟩, ⟨"FOO", "Foo2", .bool true⟩]
      ∧ ["Foo", "Bar", "Foo2"].Nodup := by
  have hrefuses : foos.enumerate {} .error = .error (.nameCollision "Foo" "foo" "FOO") := rfl
  have hnumbers : foos.enumerate {} .disambiguate
      = .ok [⟨"foo", "Foo", .bool true⟩, ⟨"bar", "Bar", .bool true⟩, ⟨"FOO", "Foo2", .bool true⟩] := rfl
  exact ⟨((enumerate_outcome foos {} .error).2.1 _).mp hrefuses, hnumbers,
    ((enumerate_outcome foos {} .disambiguate).1 _ hnumbers).2.1⟩

end Definitions

end DecoderForge
