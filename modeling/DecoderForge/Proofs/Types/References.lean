import DecoderForge.Proofs.Schema.Names
import DecoderForge.Proofs.Schema.Reference
import DecoderForge.Types.Declaration

/-!
# DecoderForge — what the type compiler makes of a reference

The type compiler answers a reference from a table that holds two spellings of every definition, and
the validators follow the reference into the schema.  The two readings meet where a spelling leads to
the definition that it was made from, and where no later definition took the spelling over.

## The architecture

* **`mem_spellings_of_lookup`** — an answer names the definition whose spelling the reference is.
* **`lookup_definitionPointer_iff`** — the pointer of a definition is answered with its own name unless a
  later definition has that spelling too.
* **`reference_reads_definition_iff`** — both halves of the agreement, with the exact conditions.
-/

namespace DecoderForge.Types

/-! ## The table -/

/-- Both spellings go on behind the `#`, so that no spelling is the reference to the whole document. -/
theorem ne_hash_of_mem_spellings {key r : String} (h : r ∈ spellings key) : r ≠ "#" := by
  rintro rfl
  have hraw : ∀ key, rawReference key ≠ "#" := by
    intro key heq
    have hlength := congrArg String.length heq
    have hlong : "#/".length = 2 := rfl
    have hshort : "#".length = 1 := rfl
    simp only [rawReference, String.length_append] at hlength
    omega
  rcases List.mem_cons.mp h with h | h
  · rw [definitionPointer_eq_rawReference] at h
    exact hraw _ h.symm
  · exact hraw key (List.mem_singleton.mp h).symm

/-- What the table holds: every spelling of every definition, with its name. -/
theorem mem_referenceNames {ds : List Definition} {r name : String} :
    (r, name) ∈ referenceNames ds ↔ ∃ d ∈ ds, r ∈ spellings d.key ∧ d.name = name := by
  unfold referenceNames
  rw [List.mem_reverse, List.mem_flatMap]
  constructor
  · rintro ⟨d, hd, hmem⟩
    obtain ⟨s, hs, heq⟩ := List.mem_map.mp hmem
    obtain ⟨rfl, rfl⟩ := Prod.mk.inj heq
    exact ⟨d, hd, hs, rfl⟩
  · rintro ⟨d, hd, hr, rfl⟩
    exact ⟨d, hd, List.mem_map.mpr ⟨r, hr, rfl⟩⟩

/-- The table of definitions with one in the middle: what is later comes first. -/
theorem lookup_referenceNames_append (before after : List Definition) (d : Definition) (r : String) :
    (referenceNames (before ++ d :: after)).lookup r
      = ((referenceNames after).lookup r).or
          ((((spellings d.key).map fun s => (s, d.name)).reverse.lookup r).or
            ((referenceNames before).lookup r)) := by
  unfold referenceNames
  rw [List.flatMap_append, List.flatMap_cons, List.reverse_append, List.reverse_append,
    List.append_assoc, List.lookup_append, List.lookup_append]

/-- An answer is a name that the table holds for the reference. -/
theorem mem_of_lookup {ds : List Definition} {r name : String}
    (h : (referenceNames ds).lookup r = some name) : (r, name) ∈ referenceNames ds := by
  obtain ⟨l₁, l₂, heq, -⟩ := List.lookup_eq_some_iff.mp h
  rw [heq]
  simp

/-- A reference with an answer is a spelling of some definition, and the other way round. -/
theorem lookup_eq_none_iff {ds : List Definition} {r : String} :
    (referenceNames ds).lookup r = none ↔ ∀ d ∈ ds, r ∉ spellings d.key := by
  constructor
  · intro h d hd hr
    have hmem := mem_referenceNames.mpr ⟨d, hd, hr, rfl⟩
    have hne := List.lookup_eq_none_iff.mp h _ hmem
    simp at hne
  · intro h
    cases hlookup : (referenceNames ds).lookup r with
    | none => rfl
    | some name =>
        obtain ⟨d, hd, hr, -⟩ := mem_referenceNames.mp (mem_of_lookup hlookup)
        exact absurd hr (h d hd)

/-- **An answer names the definition whose spelling the reference is**, since names differ. -/
theorem mem_spellings_of_lookup {ds : List Definition} (hnodup : (ds.map Definition.name).Nodup)
    {r : String} {d : Definition} (hd : d ∈ ds) (h : (referenceNames ds).lookup r = some d.name) :
    r ∈ spellings d.key := by
  obtain ⟨d', hd', hr, hname⟩ := mem_referenceNames.mp (mem_of_lookup h)
  obtain rfl := List.inj_on_of_nodup_map hnodup hd' hd hname
  exact hr

/-- The pointer of one definition is a spelling of another that has the same key, or has as its key what
the pointer makes of the first. -/
theorem definitionPointer_mem_spellings_iff (key other : String) :
    definitionPointer key ∈ spellings other ↔ other = key ∨ other = escapedKey key := by
  constructor
  · intro h
    rcases List.mem_cons.mp h with h | h
    · exact Or.inl (definitionPointer_injective h).symm
    · rw [definitionPointer_eq_rawReference] at h
      exact Or.inr (rawReference_injective (List.mem_singleton.mp h)).symm
  · rintro (rfl | rfl)
    · exact List.mem_cons_self
    · rw [definitionPointer_eq_rawReference]
      exact List.mem_cons_of_mem _ (List.mem_singleton.mpr rfl)

/-- **The pointer of a definition is answered with its own name unless a later definition has that
spelling too.**  Earlier ones do not matter: what is written later into the table counts. -/
theorem lookup_definitionPointer_iff {before after : List Definition} {d : Definition}
    (hnodup : ((before ++ d :: after).map Definition.name).Nodup) :
    (referenceNames (before ++ d :: after)).lookup (definitionPointer d.key) = some d.name
      ↔ ∀ e ∈ after, e.key ≠ d.key ∧ e.key ≠ escapedKey d.key := by
  rw [lookup_referenceNames_append]
  constructor
  · intro h e he
    rw [← not_or, ← definitionPointer_mem_spellings_iff]
    intro hspelled
    cases hlookup : (referenceNames after).lookup (definitionPointer d.key) with
    | none => exact lookup_eq_none_iff.mp hlookup e he hspelled
    | some name =>
        rw [hlookup, Option.some_or] at h
        obtain rfl := Option.some.inj h
        -- a later definition would carry the same name
        obtain ⟨d', hd', -, hname⟩ := mem_referenceNames.mp (mem_of_lookup hlookup)
        rw [List.map_append, List.map_cons] at hnodup
        have hno := (List.nodup_cons.mp (List.nodup_append.mp hnodup).2.1).1
        exact hno (hname ▸ List.mem_map_of_mem hd')
  · intro h
    have hnone : (referenceNames after).lookup (definitionPointer d.key) = none := by
      rw [lookup_eq_none_iff]
      intro e he hspelled
      rw [definitionPointer_mem_spellings_iff] at hspelled
      exact hspelled.elim (h e he).1 (h e he).2
    rw [hnone, Option.none_or]
    show ((List.lookup (definitionPointer d.key)
      [(rawReference d.key, d.name), (definitionPointer d.key, d.name)]).or _) = _
    by_cases heq : definitionPointer d.key = rawReference d.key
    · simp [heq]
    · have hbeq : (definitionPointer d.key == rawReference d.key) = false := by simpa using heq
      simp [List.lookup_cons, hbeq]

/-! ## The answer -/

/-- A reference that the table holds is answered from the table, however deep it may be followed. -/
theorem Scope.reference_of_lookup {scope : Scope} {r name : String} (hne : r ≠ "#")
    (h : scope.names.lookup r = some name) (remaining : Nat) :
    scope.reference remaining r = .ok (.ofString name) := by
  have hbeq : (r == "#") = false := by simpa using hne
  cases remaining <;> simp [Scope.reference, hbeq, h]

/-- Names are told apart by their text. -/
theorem ofString_injective {s t : String} (h : TypeExpr.ofString s = TypeExpr.ofString t) : s = t := by
  unfold TypeExpr.ofString at h
  exact String.toList_injective (TypeExpr.word.inj h)

/-- The value under a key of the definitions. -/
def definitionAt? (schema : Json) (key : String) : Option Json :=
  (schema.get? definitionsKey).bind fun definitions => definitions.get? key

/-- Definitions with identifiers are those of the schema, if there is any. -/
theorem definitionsOf_cases {naming : Naming} {policy : CollisionPolicy} {schema : Json} {ds : List Definition}
    (h : definitionsOf naming policy schema = .ok ds) :
    ds = [] ∨ ∃ definitions : Definitions, schema.get? definitionsKey = some (.obj definitions.entries)
      ∧ definitions.enumerate naming policy = .ok ds := by
  unfold definitionsOf at h
  cases hschema : Definitions.ofSchema schema with
  | error e =>
      rw [hschema] at h
      exact .inl (Except.ok.inj h).symm
  | ok definitions =>
      simp only [hschema] at h
      cases henum : definitions.enumerate naming policy with
      | error e => rw [henum] at h; exact absurd h (by simp [Except.mapError])
      | ok ds' =>
          rw [henum] at h
          obtain rfl : ds' = ds := Except.ok.inj h
          refine .inr ⟨definitions, ?_, henum⟩
          unfold Definitions.ofSchema at hschema
          split at hschema
          · next heq =>
            obtain rfl := Except.ok.inj hschema
            exact heq
          · exact absurd hschema (by simp)

/-- Definitions with identifiers come from a map of definitions, and their identifiers differ. -/
theorem definitionsOf_eq_ok {naming : Naming} {policy : CollisionPolicy} {schema : Json}
    {ds : List Definition} (h : definitionsOf naming policy schema = .ok ds) :
    (ds.map Definition.name).Nodup
      ∧ (ds ≠ [] → ∃ entries, schema.get? definitionsKey = some (.obj entries)) := by
  rcases definitionsOf_cases h with rfl | ⟨definitions, hentries, henum⟩
  · exact ⟨List.nodup_nil, fun hne => absurd rfl hne⟩
  · exact ⟨Definitions.nodup_of_enumerate henum, fun _ => ⟨_, hentries⟩⟩

/-- **The two readings of a reference.**  A reference that is answered with the name of a definition
spells the place of that definition exactly when it is the pointer made from the key, or the key is
plain; then the validators find the definition under it.  The pointer made from a key is answered with
the name of its own definition exactly when no later definition has the escaped key as its key. -/
theorem reference_reads_definition_iff {naming : Naming} {policy : CollisionPolicy} {schema : Json}
    {ds : List Definition} (hds : definitionsOf naming policy schema = .ok ds) {scope : Scope}
    (hroot : scope.root = schema) (hnames : scope.names = referenceNames ds) :
    (∀ r, ∀ d ∈ ds, scope.names.lookup r = some d.name →
      (∀ remaining, scope.reference remaining r = .ok (.ofString d.name))
        ∧ (referencePath? r = some (definitionPath d.key)
          ↔ r = definitionPointer d.key ∨ IsPlainKey d.key)
        ∧ (r = definitionPointer d.key ∨ IsPlainKey d.key →
          resolveLocal? scope.root r = definitionAt? schema d.key))
      ∧ ∀ before d after, ds = before ++ d :: after → ∀ remaining,
        (scope.reference remaining (definitionPointer d.key) = .ok (.ofString d.name)
          ↔ ∀ e ∈ after, e.key ≠ d.key ∧ e.key ≠ escapedKey d.key) := by
  obtain ⟨hnodup, hmap⟩ := definitionsOf_eq_ok hds
  rw [hroot, hnames]
  refine ⟨fun r d hd hlookup => ?_, fun before d after heq remaining => ?_⟩
  · obtain ⟨entries, hentries⟩ := hmap (List.ne_nil_of_mem hd)
    have hspelled := mem_spellings_of_lookup hnodup hd hlookup
    have hpath : referencePath? r = some (definitionPath d.key)
        ↔ r = definitionPointer d.key ∨ IsPlainKey d.key := by
      rcases List.mem_cons.mp hspelled with rfl | hraw
      · exact ⟨fun _ => Or.inl rfl, fun _ => referencePath?_definitionPointer d.key⟩
      · obtain rfl : r = rawReference d.key := List.mem_singleton.mp hraw
        refine ⟨fun h => Or.inr ((referencePath?_rawReference_iff d.key).mp h), ?_⟩
        rintro (heq | hplain)
        · rw [heq]
          exact referencePath?_definitionPointer d.key
        · exact referencePath?_rawReference hplain
    refine ⟨fun remaining => ?_, hpath, fun h => ?_⟩
    · exact Scope.reference_of_lookup (ne_hash_of_mem_spellings hspelled) (hnames ▸ hlookup) remaining
    · rw [resolveLocal?_eq_descend?, hpath.mpr h]
      show schema.descend? (definitionPath d.key) = _
      rw [descend?_definitionPath hentries]
      unfold definitionAt?
      rw [hentries]
      rfl
  · subst heq
    rw [← lookup_definitionPointer_iff hnodup]
    -- some definition answers, and its name is the answer
    have hself : definitionPointer d.key ∈ spellings d.key := List.mem_cons_self
    have hd : d ∈ before ++ d :: after := by simp
    cases hlookup : (referenceNames (before ++ d :: after)).lookup (definitionPointer d.key) with
    | none => exact absurd hself (lookup_eq_none_iff.mp hlookup d hd)
    | some name =>
        rw [Scope.reference_of_lookup (ne_hash_of_mem_spellings hself) (hnames ▸ hlookup) remaining]
        constructor
        · intro h
          rw [ofString_injective (Except.ok.inj h)]
        · intro h
          rw [Option.some.inj h]

/-- A schema in which the second key is what the pointer makes of the first. -/
def keyAndEscapedKey : Json :=
  .obj [(definitionsKey, .obj [("a/b", .obj [("type", .str "string")]),
    ("a~1b", .obj [("type", .str "number")])])]

/-- Its definitions with their identifiers. -/
def namedKeyAndEscapedKey : List Definition :=
  [⟨"a/b", "AB", .obj [("type", .str "string")]⟩, ⟨"a~1b", "A1B", .obj [("type", .str "number")]⟩]

/-- There the second definition keeps its own pointer, and the validators find it under that pointer;
the first has lost its own. -/
theorem reference_reads_definition_escaped_key :
    definitionsOf {} .error keyAndEscapedKey = .ok namedKeyAndEscapedKey
      ∧ resolveLocal? keyAndEscapedKey (definitionPointer "a~1b")
          = definitionAt? keyAndEscapedKey "a~1b"
      ∧ (⟨keyAndEscapedKey, {}, referenceNames namedKeyAndEscapedKey⟩ : Scope).reference 0
          (definitionPointer "a/b") ≠ .ok (.ofString "AB") := by
  have hds : definitionsOf {} .error keyAndEscapedKey = .ok namedKeyAndEscapedKey := rfl
  have hroot : (⟨keyAndEscapedKey, {}, referenceNames namedKeyAndEscapedKey⟩ : Scope).root
      = keyAndEscapedKey := rfl
  obtain ⟨hanswered, hcanonical⟩ := reference_reads_definition_iff hds hroot rfl
  refine ⟨hds, ?_, fun h => ?_⟩
  · have hlookup : (referenceNames namedKeyAndEscapedKey).lookup (definitionPointer "a~1b")
        = some "A1B" := by decide
    exact (hanswered _ ⟨"a~1b", "A1B", .obj [("type", .str "number")]⟩
      (by simp [namedKeyAndEscapedKey]) hlookup).2.2 (Or.inl rfl)
  · have hlater := (hcanonical [] _ [_] rfl 0).mp h
    exact (hlater _ (List.mem_singleton.mpr rfl)).2 (by decide)

/-- In that schema the pointer of the first definition is answered with the name of the second, while
the validators find the first under it. -/
theorem references_differ_at_escaped_key :
    definitionsOf {} .error keyAndEscapedKey = .ok namedKeyAndEscapedKey
      ∧ (referenceNames namedKeyAndEscapedKey).lookup (definitionPointer "a/b") = some "A1B"
      ∧ resolveLocal? keyAndEscapedKey (definitionPointer "a/b")
          ≠ definitionAt? keyAndEscapedKey "a~1b" := by
  refine ⟨rfl, by decide, ?_⟩
  rw [resolveLocal?_definitionPointer
    (rfl : keyAndEscapedKey.get? definitionsKey = some (.obj _))]
  decide

end DecoderForge.Types
