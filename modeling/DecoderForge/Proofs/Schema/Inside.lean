import DecoderForge.Schema.Pointer
import DecoderForge.Schema.References
import Mathlib.Data.List.Basic

/-!
# DecoderForge — the values inside a value

What is done for every schema inside a schema follows the tree downwards.  This module names the relation
and says what shrinks along it.

## The architecture

* **`Json.Inside`** — a value strictly inside another.
* **`Json.Inside.height_lt`**, **`Json.Inside.references_subset`** — a value inside another is less high,
  and its references are references of the other.
* **`Json.inside_induction`** — induction on the values inside a value.
* **`Json.mem_of_get?`** — where a member that is looked up stands.
* **`Json.inside_of_resolveLocal?`** — a local reference leads nowhere else.
* **`Json.texts`** — the texts of a value, with those of the values inside.
* **`Json.values`** — a value with the values inside.
-/

namespace DecoderForge.Json

/-- A value strictly inside another: an item, a member, or further down. -/
inductive Inside : Json → Json → Prop where
  | item {v : Json} {items : List Json} (h : v ∈ items) : Inside v (.arr items)
  | member {k : String} {v : Json} {members : Members} (h : (k, v) ∈ members) :
      Inside v (.obj members)
  | trans {a b c : Json} (hab : Inside a b) (hbc : Inside b c) : Inside a c

/-! ## Height -/

/-- An item is at most as high as the highest. -/
theorem height_le_heightItems {v : Json} :
    ∀ {items : List Json}, v ∈ items → v.height ≤ height.heightItems items
  | w :: rest, h => by
      rw [height.heightItems]
      rcases List.mem_cons.mp h with rfl | h
      · exact Nat.le_max_left _ _
      · exact Nat.le_trans (height_le_heightItems h) (Nat.le_max_right _ _)

/-- A member is at most as high as the highest. -/
theorem height_le_heightMembers {k : String} {v : Json} :
    ∀ {members : Members}, (k, v) ∈ members → v.height ≤ height.heightMembers members
  | (l, w) :: rest, h => by
      rw [height.heightMembers]
      rcases List.mem_cons.mp h with heq | h
      · obtain ⟨rfl, rfl⟩ := Prod.mk.inj heq
        exact Nat.le_max_left _ _
      · exact Nat.le_trans (height_le_heightMembers h) (Nat.le_max_right _ _)

/-- **A value inside another is less high.** -/
theorem Inside.height_lt {a b : Json} (h : Inside a b) : a.height < b.height := by
  induction h with
  | item h => exact Nat.lt_succ_of_le (height_le_heightItems h)
  | member h => exact Nat.lt_succ_of_le (height_le_heightMembers h)
  | trans _ _ hab hbc => exact Nat.lt_trans hab hbc

/-- What holds of a value if it holds of those inside it holds of all values. -/
theorem inside_induction {P : Json → Prop} (step : ∀ v, (∀ w, Inside w v → P w) → P v) (v : Json) : P v := by
  induction hn : v.height using Nat.strongRecOn generalizing v with
  | _ n ih => exact step v fun w hw => ih w.height (hn ▸ hw.height_lt) w rfl

/-! ## References -/

/-- The references of an item are references of the list. -/
theorem references_subset_items {v : Json} :
    ∀ {items : List Json}, v ∈ items → v.references ⊆ referencesOfItems items
  | w :: rest, h => by
      rw [referencesOfItems]
      rcases List.mem_cons.mp h with rfl | h
      · exact List.subset_append_left _ _
      · exact List.Subset.trans (references_subset_items h) (List.subset_append_right _ _)

/-- The references of a member are references of the members.  A string that is itself a reference has
none inside. -/
theorem references_subset_members {k : String} {v : Json} :
    ∀ {members : Members}, (k, v) ∈ members → v.references ⊆ referencesOfMembers members
  | (l, w) :: rest, h => by
      rw [referencesOfMembers.eq_def]
      simp only
      rcases List.mem_cons.mp h with heq | h
      · obtain ⟨rfl, rfl⟩ := Prod.mk.inj heq
        refine List.Subset.trans ?_ (List.subset_append_left _ _)
        split
        · simp [references]
        · exact List.Subset.refl _
      · exact List.Subset.trans (references_subset_members h) (List.subset_append_right _ _)

/-- A string that stands as `$ref` is a reference of the members. -/
theorem mem_referencesOfMembers {r : String} :
    ∀ {members : Members}, ("$ref", .str r) ∈ members → r ∈ referencesOfMembers members
  | (l, w) :: rest, h => by
      rw [referencesOfMembers.eq_def]
      simp only
      rw [List.mem_append]
      rcases List.mem_cons.mp h with heq | h
      · obtain ⟨rfl, rfl⟩ := Prod.mk.inj heq
        exact Or.inl (List.mem_singleton.mpr rfl)
      · exact Or.inr (mem_referencesOfMembers h)

/-- **The references of a value inside another are references of the other.** -/
theorem Inside.references_subset {a b : Json} (h : Inside a b) : a.references ⊆ b.references := by
  induction h with
  | item h => exact references_subset_items h
  | member h => exact references_subset_members h
  | trans _ _ hab hbc => exact List.Subset.trans hab hbc

mutual

/-- **There are at most as many references as values.** -/
theorem length_references_le_size : ∀ v : Json, v.references.length ≤ v.size
  | .null | .bool _ | .num _ | .str _ => by simp [references]
  | .arr items => by
      rw [references, size]
      exact Nat.le_succ_of_le (length_referencesOfItems_le items)
  | .obj members => by
      rw [references, size]
      exact Nat.le_succ_of_le (length_referencesOfMembers_le members)

theorem length_referencesOfItems_le :
    ∀ items : List Json, (referencesOfItems items).length ≤ size.sizeItems items
  | [] => by simp [referencesOfItems]
  | v :: rest => by
      rw [referencesOfItems, List.length_append, size.sizeItems]
      exact Nat.add_le_add (length_references_le_size v) (length_referencesOfItems_le rest)

theorem length_referencesOfMembers_le :
    ∀ members : List (String × Json), (referencesOfMembers members).length ≤ size.sizeMembers members
  | [] => by simp [referencesOfMembers]
  | (k, v) :: rest => by
      rw [referencesOfMembers.eq_def, size.sizeMembers]
      dsimp only
      rw [List.length_append]
      refine Nat.add_le_add ?_ (length_referencesOfMembers_le rest)
      split
      · exact Nat.le_refl 1
      · exact length_references_le_size v

end

/-! ## Members -/

/-- A member that is looked up stands among the members. -/
theorem mem_of_get? {members : Members} {name : String} {v : Json}
    (h : members.get? name = some v) : (name, v) ∈ members := by
  obtain ⟨l₁, l₂, rfl, -⟩ := List.lookup_eq_some_iff.mp h
  simp

/-- A value that is looked up is inside the object. -/
theorem inside_of_get? {members : Members} {name : String} {v : Json}
    (h : members.get? name = some v) : Inside v (.obj members) :=
  .member (mem_of_get? h)

/-- Members have a name exactly when a value is found under it. -/
theorem contains_eq_isSome_get? (name : String) :
    ∀ members : Members, members.contains name = (members.get? name).isSome
  | [] => rfl
  | (k, v) :: rest => by
      have ih := contains_eq_isSome_get? name rest
      show (k == name || Members.contains rest name) = (List.lookup name ((k, v) :: rest)).isSome
      rw [List.lookup_cons, ih, BEq.comm]
      cases hk : name == k with
      | true => rfl
      | false => rfl

/-- Among members with different names every member is found under its name. -/
theorem get?_of_mem {members : Members} (hnodup : (members.map Prod.fst).Nodup) {name : String}
    {v : Json} (h : (name, v) ∈ members) : members.get? name = some v := by
  induction members with
  | nil => exact absurd h (by simp)
  | cons m rest ih =>
      obtain ⟨k, w⟩ := m
      rw [List.map_cons, List.nodup_cons] at hnodup
      rcases List.mem_cons.mp h with heq | hrest
      · obtain ⟨rfl, rfl⟩ := Prod.mk.inj heq
        simp [Members.get?]
      · have hne : name ≠ k := by
          rintro rfl
          exact hnodup.1 (List.mem_map.mpr ⟨_, hrest, rfl⟩)
        have hbeq : (name == k) = false := by simpa using hne
        show List.lookup name ((k, w) :: rest) = _
        rw [List.lookup_cons, hbeq]
        exact ih hnodup.2 hrest

/-- Entries under other keys do not matter for a look-up. -/
theorem lookup_filter {α β : Type} [BEq α] [LawfulBEq α] {p : α → Bool} {key : α} (h : p key = true) :
    ∀ entries : List (α × β), (entries.filter fun e => p e.1).lookup key = entries.lookup key
  | [] => rfl
  | (k, v) :: rest => by
      have ih := lookup_filter h rest
      by_cases hk : p k = true
      · rw [List.filter_cons, if_pos hk, List.lookup_cons, List.lookup_cons, ih]
      · have hne : key ≠ k := by
          rintro rfl
          exact hk h
        rw [List.filter_cons, if_neg hk, List.lookup_cons, beq_false_of_ne hne, ih]

/-! ## Pointers -/

/-- A step down a pointer. -/
theorem inside_of_child? {j v : Json} {token : List Char} (h : j.child? token = some v) : Inside v j := by
  unfold child? at h
  split at h
  · exact inside_of_get? h
  · obtain ⟨i, -, hi⟩ := Option.bind_eq_some_iff.mp h
    exact .item (List.mem_of_getElem? hi)
  · exact absurd h (by simp)

/-- Steps down a pointer. -/
theorem inside_of_descend? {v : Json} : ∀ {tokens : List (List Char)} {j : Json},
    j.descend? tokens = some v → v = j ∨ Inside v j
  | [], j, h => Or.inl (Option.some.inj h).symm
  | t :: tokens, j, h => by
      obtain ⟨k, hk, h⟩ := Option.bind_eq_some_iff.mp h
      rcases inside_of_descend? h with rfl | h
      · exact Or.inr (inside_of_child? hk)
      · exact Or.inr (.trans h (inside_of_child? hk))

/-- **A local reference leads to the document or into it.** -/
theorem inside_of_resolveLocal? {root v : Json} {r : String} (h : resolveLocal? root r = some v) :
    v = root ∨ Inside v root := by
  unfold resolveLocal? at h
  split at h
  · obtain ⟨pointer, -, h⟩ := Option.bind_eq_some_iff.mp h
    unfold atPointer? at h
    split at h
    · exact Or.inl (Option.some.inj h).symm
    · exact inside_of_descend? h
    · exact absurd h (by simp)
  · exact absurd h (by simp)

/-! ## Texts -/

mutual

/-- Every text in a value: its strings and the names of its members. -/
def texts : Json → List String
  | .str s => [s]
  | .arr items => textsOfItems items
  | .obj members => textsOfMembers members
  | _ => []

/-- Every text in items. -/
def textsOfItems : List Json → List String
  | [] => []
  | v :: rest => texts v ++ textsOfItems rest

/-- Every text in members. -/
def textsOfMembers : List (String × Json) → List String
  | [] => []
  | (k, v) :: rest => k :: texts v ++ textsOfMembers rest

end

theorem texts_subset_items {v : Json} :
    ∀ {items : List Json}, v ∈ items → v.texts ⊆ textsOfItems items
  | w :: rest, h => by
      rw [textsOfItems]
      rcases List.mem_cons.mp h with rfl | h
      · exact List.subset_append_left _ _
      · exact List.Subset.trans (texts_subset_items h) (List.subset_append_right _ _)

theorem texts_subset_members {k : String} {v : Json} :
    ∀ {members : Members}, (k, v) ∈ members → k :: v.texts ⊆ textsOfMembers members
  | (l, w) :: rest, h => by
      rw [textsOfMembers]
      rcases List.mem_cons.mp h with heq | h
      · obtain ⟨rfl, rfl⟩ := Prod.mk.inj heq
        exact List.subset_append_left _ _
      · exact List.Subset.trans (texts_subset_members h) (List.subset_append_right _ _)

/-- **The texts of a value inside another are texts of the other.** -/
theorem Inside.texts_subset {a b : Json} (h : Inside a b) : a.texts ⊆ b.texts := by
  induction h with
  | item h => exact texts_subset_items h
  | member h => exact List.Subset.trans (List.subset_cons_self _ _) (texts_subset_members h)
  | trans _ _ hab hbc => exact List.Subset.trans hab hbc

/-! ## Values -/

mutual

/-- A value and every value inside. -/
def values : Json → List Json
  | .arr items => .arr items :: valuesOfItems items
  | .obj members => .obj members :: valuesOfMembers members
  | v => [v]

/-- Every value in items. -/
def valuesOfItems : List Json → List Json
  | [] => []
  | v :: rest => values v ++ valuesOfItems rest

/-- Every value in members. -/
def valuesOfMembers : List (String × Json) → List Json
  | [] => []
  | (_, v) :: rest => values v ++ valuesOfMembers rest

end

theorem mem_values_self : ∀ v : Json, v ∈ v.values
  | .null | .bool _ | .num _ | .str _ | .arr _ | .obj _ => by simp [values]

theorem values_subset_items {v : Json} :
    ∀ {items : List Json}, v ∈ items → v.values ⊆ valuesOfItems items
  | w :: rest, h => by
      rw [valuesOfItems]
      rcases List.mem_cons.mp h with rfl | h
      · exact List.subset_append_left _ _
      · exact List.Subset.trans (values_subset_items h) (List.subset_append_right _ _)

theorem values_subset_members {k : String} {v : Json} :
    ∀ {members : Members}, (k, v) ∈ members → v.values ⊆ valuesOfMembers members
  | (l, w) :: rest, h => by
      rw [valuesOfMembers]
      rcases List.mem_cons.mp h with heq | h
      · obtain ⟨rfl, rfl⟩ := Prod.mk.inj heq
        exact List.subset_append_left _ _
      · exact List.Subset.trans (values_subset_members h) (List.subset_append_right _ _)

/-- **The values in a value inside another are values in the other.** -/
theorem Inside.values_subset {a b : Json} (h : Inside a b) : a.values ⊆ b.values := by
  induction h with
  | item h => exact List.Subset.trans (values_subset_items h) (List.subset_cons_self _ _)
  | member h => exact List.Subset.trans (values_subset_members h) (List.subset_cons_self _ _)
  | trans _ _ hab hbc => exact List.Subset.trans hab hbc

/-- What is inside an object is inside every object with the same members and more. -/
theorem Inside.of_subset {a b : Json} (h : Inside a b) {members members' : Members} (hb : b = .obj members)
    (hsubset : members ⊆ members') : Inside a (.obj members') := by
  induction h with
  | item _ => exact absurd hb (by simp)
  | member h =>
      obtain rfl := Json.obj.inj hb
      exact .member (hsubset h)
  | trans hab _ _ ih => exact .trans hab (ih hb)

/-- Nothing is inside an object without members. -/
theorem not_inside_nil {v : Json} : ¬ Inside v (.obj []) := by
  intro h
  have hmem := h.values_subset (mem_values_self v)
  obtain rfl : v = .obj [] := by simpa [values, valuesOfMembers] using hmem
  exact absurd h.height_lt (Nat.lt_irrefl _)

/-- A name that is no text of a value is the name of none of its members. -/
theorem getString?_eq_none {v : Json} {name : String} (h : name ∉ v.texts) : v.getString? name = none := by
  cases hget : v.get? name with
  | none =>
      unfold getString?
      rw [hget]
      rfl
  | some w =>
      cases v with
      | obj members => exact absurd (texts_subset_members (mem_of_get? hget) List.mem_cons_self) h
      | _ => exact absurd hget (by simp [get?])

end DecoderForge.Json
