import DecoderForge.Schema.Definitions
import Mathlib.Data.List.Perm.Subperm
import Mathlib.Data.List.Nodup

/-!
# DecoderForge — no two definitions share an identifier

Identifiers are given out one after another against a table of those given out before.  A free one is
given out as it is; for a taken one the table looks for a free number, and finds one because it has
fewer owners than the search has numbers.

## The architecture

* **`NameTable.taken_numbered_freeNumber`** — the number that is found is free.
* **`NameTable.claim_eq_ok`** — what one successful claim gives out and records.
* **`Definitions.nodup_of_enumerate`** — the run: the identifiers of a schema differ.
-/

namespace DecoderForge

namespace NameTable

/-! ## Free numbers -/

/-- An identifier is taken when it is among those with an owner. -/
theorem taken_iff (t : NameTable) (name : String) :
    t.taken name = true ↔ name ∈ t.owners.map Prod.fst := by
  unfold taken owner?
  rw [List.lookup_isSome_iff]
  constructor
  · rintro ⟨p, hp, hname⟩
    rw [beq_iff_eq] at hname
    exact List.mem_map.mpr ⟨p, hp, hname.symm⟩
  · intro h
    obtain ⟨p, hp, rfl⟩ := List.mem_map.mp h
    exact ⟨p, hp, by simp⟩

/-- Different numbers make different identifiers. -/
theorem numbered_injective {name : String} {m n : Nat} (h : numbered name m = numbered name n) :
    m = n := by
  have hchars := congrArg String.toList h
  unfold numbered at hchars
  rw [String.toList_append, String.toList_append] at hchars
  have hdigits : Nat.toDigits 10 m = Nat.toDigits 10 n := by
    simpa [Nat.toString_eq_ofList_toDigits] using List.append_cancel_left hchars
  have hread := congrArg (fun digits => Nat.ofDigitChars 10 digits 0) hdigits
  simpa using hread

/-- The search passes taken numbers only, and stops early at a free one only. -/
theorem freeNumber_spec (t : NameTable) (name : String) :
    ∀ fuel n : Nat, (∀ m, n ≤ m → m < t.freeNumber name fuel n → t.taken (numbered name m) = true)
      ∧ (t.freeNumber name fuel n = n + fuel
        ∨ t.taken (numbered name (t.freeNumber name fuel n)) = false)
  | 0, n => ⟨fun m hle hlt => absurd hlt (by simp only [freeNumber]; omega), Or.inl rfl⟩
  | fuel + 1, n => by
      obtain ⟨hpassed, hstop⟩ := freeNumber_spec t name fuel (n + 1)
      by_cases h : t.taken (numbered name n) = true
      · rw [show t.freeNumber name (fuel + 1) n = t.freeNumber name fuel (n + 1) from by
          simp [freeNumber, h]]
        refine ⟨fun m hle hlt => ?_, ?_⟩
        · rcases Nat.eq_or_lt_of_le hle with rfl | hlt'
          · exact h
          · exact hpassed m hlt' hlt
        · rcases hstop with heq | hfree
          · exact Or.inl (by omega)
          · exact Or.inr hfree
      · rw [show t.freeNumber name (fuel + 1) n = n from by simp [freeNumber, h]]
        exact ⟨fun m hle hlt => absurd hlt (by omega), Or.inr (by simpa using h)⟩

/-- **The number that is found is free.**  Were it taken, so would be every number before it, and the
table would have one owner more than it has. -/
theorem taken_numbered_freeNumber (t : NameTable) (name : String) :
    t.taken (numbered name (t.freeNumber name t.owners.length 2)) = false := by
  obtain ⟨hpassed, hstop⟩ := freeNumber_spec t name t.owners.length 2
  rcases hstop with heq | hfree
  · cases htaken : t.taken (numbered name (t.freeNumber name t.owners.length 2)) with
    | false => rfl
    | true =>
        exfalso
        let tried := (List.range (t.owners.length + 1)).map fun i => numbered name (2 + i)
        have hnodup : tried.Nodup := by
          refine List.Nodup.map ?_ List.nodup_range
          intro i j hij
          have := numbered_injective hij
          omega
        have hsubset : tried ⊆ t.owners.map Prod.fst := by
          intro x hx
          obtain ⟨i, hi, rfl⟩ := List.mem_map.mp hx
          rw [List.mem_range] at hi
          rw [← taken_iff]
          rcases Nat.eq_or_lt_of_le (Nat.le_of_lt_succ hi) with rfl | hlt
          · rw [heq] at htaken
            exact htaken
          · exact hpassed (2 + i) (by omega) (by omega)
        have hle := (hnodup.subperm hsubset).length_le
        simp only [tried, List.length_map, List.length_range] at hle
        omega
  · exact hfree

/-! ## One claim -/

/-- What a claim gives out was free and is recorded, under either policy. -/
theorem claim_eq_ok {t t' : NameTable} {key derived name : String}
    (h : t.claim key derived = .ok (name, t')) :
    t.taken name = false ∧ t' = t.record name key := by
  unfold claim at h
  cases howner : t.owner? derived with
  | none =>
      rw [howner] at h
      obtain ⟨rfl, rfl⟩ := Prod.mk.inj (Except.ok.inj h)
      exact ⟨by simp [taken, howner], rfl⟩
  | some first =>
      rw [howner] at h
      cases hpolicy : t.policy with
      | error => simp [hpolicy] at h
      | disambiguate =>
          simp only [hpolicy] at h
          obtain ⟨rfl, rfl⟩ := Prod.mk.inj (Except.ok.inj h)
          exact ⟨taken_numbered_freeNumber t derived, rfl⟩

/-- After a record the recorded identifier is taken, and with it those taken before. -/
theorem taken_record (t : NameTable) (name key other : String) :
    (t.record name key).taken other = true ↔ other = name ∨ t.taken other = true := by
  rw [taken_iff, taken_iff]
  simp [record]

end NameTable

/-! ## All claims -/

namespace Definitions

/-- One step of the enumeration. -/
theorem enumerateFrom_cons_eq_ok {naming : Naming} {table : NameTable} {key : String} {schema : Json}
    {rest : Json.Members} {ds : List Definition}
    (h : enumerateFrom naming table ((key, schema) :: rest) = .ok ds) :
    ∃ derived name more, naming.derive key schema = .ok derived
      ∧ table.claim key derived = .ok (name, table.record name key)
      ∧ enumerateFrom naming (table.record name key) rest = .ok more
      ∧ ds = ⟨key, name, schema⟩ :: more := by
  unfold enumerateFrom at h
  cases hderive : naming.derive key schema with
  | error e => rw [hderive] at h; exact absurd h (by simp [bind, Except.bind])
  | ok derived =>
      rw [hderive] at h
      cases hclaim : table.claim key derived with
      | error e =>
          simp only [bind, Except.bind, hclaim] at h
          exact absurd h (by simp)
      | ok claimed =>
          obtain ⟨name, table'⟩ := claimed
          obtain ⟨-, rfl⟩ := NameTable.claim_eq_ok hclaim
          cases hmore : enumerateFrom naming (table.record name key) rest with
          | error e =>
              simp only [bind, Except.bind, hclaim, hmore] at h
              exact absurd h (by simp)
          | ok more =>
              simp only [bind, Except.bind, hclaim, hmore, pure, Except.pure] at h
              exact ⟨derived, name, more, rfl, hclaim, hmore, (Except.ok.inj h).symm⟩

/-- The definitions of an enumeration are the entries in order. -/
theorem entries_of_enumerateFrom {naming : Naming} :
    ∀ {entries : Json.Members} {table : NameTable} {ds : List Definition},
      enumerateFrom naming table entries = .ok ds → ds.map (fun d => (d.key, d.schema)) = entries
  | [], _, ds, h => by
      obtain rfl : [] = ds := Except.ok.inj h
      rfl
  | (key, schema) :: rest, _, ds, h => by
      obtain ⟨_, name, more, -, -, hmore, rfl⟩ := enumerateFrom_cons_eq_ok h
      rw [List.map_cons, entries_of_enumerateFrom hmore]

/-- The identifiers of an enumeration differ from each other and from those taken before. -/
theorem nodup_of_enumerateFrom {naming : Naming} :
    ∀ {entries : Json.Members} {table : NameTable} {ds : List Definition},
      enumerateFrom naming table entries = .ok ds →
        (ds.map Definition.name).Nodup ∧ ∀ d ∈ ds, table.taken d.name = false
  | [], _, ds, h => by
      obtain rfl : [] = ds := Except.ok.inj h
      simp
  | (key, schema) :: rest, table, ds, h => by
      obtain ⟨_, name, more, -, hclaim, hmore, rfl⟩ := enumerateFrom_cons_eq_ok h
      have hfree := (NameTable.claim_eq_ok hclaim).1
      obtain ⟨hnodup, htaken⟩ := nodup_of_enumerateFrom hmore
      -- what comes later is free in a table that has this identifier and all before it
      have hlater : ∀ d ∈ more, d.name ≠ name ∧ table.taken d.name = false := by
        intro d hd
        have hno := htaken d hd
        rw [Bool.eq_false_iff, Ne, NameTable.taken_record] at hno
        exact ⟨fun heq => hno (Or.inl heq), Bool.eq_false_iff.mpr fun ht => hno (Or.inr ht)⟩
      refine ⟨?_, ?_⟩
      · rw [List.map_cons, List.nodup_cons]
        refine ⟨fun hmem => ?_, hnodup⟩
        obtain ⟨d, hd, heq⟩ := List.mem_map.mp hmem
        exact (hlater d hd).1 heq
      · intro d hd
        rcases List.mem_cons.mp hd with rfl | hd
        · exact hfree
        · exact (hlater d hd).2

/-- The definitions of a schema are its entries in order. -/
theorem entries_of_enumerate {definitions : Definitions} {naming : Naming} {policy : CollisionPolicy}
    {ds : List Definition} (h : definitions.enumerate naming policy = .ok ds) :
    ds.map (fun d => (d.key, d.schema)) = definitions.entries :=
  entries_of_enumerateFrom h

/-- **The identifiers of a schema differ**, whether taken ones are refused or numbered. -/
theorem nodup_of_enumerate {definitions : Definitions} {naming : Naming} {policy : CollisionPolicy}
    {ds : List Definition} (h : definitions.enumerate naming policy = .ok ds) :
    (ds.map Definition.name).Nodup :=
  (nodup_of_enumerateFrom h).1

end Definitions

end DecoderForge
