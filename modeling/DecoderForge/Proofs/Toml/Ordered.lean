import DecoderForge.Proofs.Json.Sorted
import DecoderForge.Proofs.Result
import DecoderForge.Toml.Tree

/-!
# DecoderForge — tables in the order of names

A table that is read has its members in the order of their names, and so have the tables in it.  Under each name
stands what stood there before, and as JSON the value is the one that was written, its members in order.

## The architecture

* **`Toml.ordered`** — a value with the members of all tables in order.
* **`Toml.lookup_orderedMembers`** — what stands under a name.
* **`Toml.toJson_ordered`** — JSON as a value, in order and back as JSON.
-/

namespace DecoderForge.Toml

mutual

/-- The value with the members of all tables in the order of their names. -/
def ordered : Toml → Toml
  | .arr items => .arr (orderedItems items)
  | .table members => .table (orderedMembers members)
  | v => v

/-- Items with the members of all tables in order. -/
def orderedItems : List Toml → List Toml
  | [] => []
  | v :: rest => ordered v :: orderedItems rest

/-- Members in order. -/
def orderedMembers : List (String × Toml) → List (String × Toml)
  | [] => []
  | (k, v) :: rest => Tree.insertSorted (k, ordered v) (orderedMembers rest)

end

/-! ## Names -/

theorem insertSorted_eq (m : String × Toml) : ∀ rest : Members, Tree.insertSorted m rest = Json.insertByName m rest
  | [] => rfl
  | n :: rest => by rw [Tree.insertSorted, Json.insertByName, insertSorted_eq m rest]

theorem orderedMembers_perm : ∀ members : Members,
    (orderedMembers members).Perm (members.map fun m => (m.1, ordered m.2))
  | [] => .refl _
  | (k, v) :: rest => by
      rw [orderedMembers, insertSorted_eq]
      exact (Json.insertByName_perm _ _).trans ((orderedMembers_perm rest).cons _)

theorem names_orderedMembers (members : Members) :
    ((orderedMembers members).map Prod.fst).Perm (members.map Prod.fst) := by
  have h := (orderedMembers_perm members).map Prod.fst
  rwa [List.map_map] at h

/-- **What stands under a name** stands there in order too. -/
theorem lookup_orderedMembers {members : Members} (h : (members.map Prod.fst).Nodup) (key : String) :
    (orderedMembers members).lookup key = (members.lookup key).map ordered := by
  have hnodup : ((orderedMembers members).map Prod.fst).Nodup := (names_orderedMembers members).nodup_iff.mpr h
  exact (Json.lookup_of_perm (orderedMembers_perm members) hnodup key).trans (Json.lookup_map_snd ordered key members)

/-! ## Back as JSON -/

variable (datetime : String → Json)

theorem membersToJson_insertSorted (m : String × Toml) : ∀ rest : Members,
    membersToJson datetime (Tree.insertSorted m rest)
      = Json.insertSorted (m.1, m.2.toJsonWith datetime) (membersToJson datetime rest)
  | [] => rfl
  | n :: rest => by
      unfold Tree.insertSorted
      rw [membersToJson, Json.insertSorted]
      split
      · rfl
      · rw [membersToJson, membersToJson_insertSorted m rest]

mutual

/-- **JSON as a value, in order and back as JSON** is the JSON with its members in order. -/
theorem toJson_ordered : ∀ {j : Json} {v : Toml}, ofJson j = .ok v → v.ordered.toJsonWith datetime = j.sorted
  | .bool _, _, h | .str _, _, h | .num (.float _), _, h => by
      obtain rfl := Except.ok.inj h
      rfl
  | .num (.int n), _, h => by
      unfold ofJson at h
      split at h
      · obtain rfl := Except.ok.inj h
        rfl
      · cases h
  | .arr items, _, h => by
      obtain ⟨vs, hvs, rfl⟩ := map_eq_ok h
      exact congrArg Json.arr (itemsToJson_ordered hvs)
  | .obj members, _, h => by
      obtain ⟨ms, hms, rfl⟩ := map_eq_ok h
      exact congrArg Json.obj (membersToJson_ordered hms)

theorem itemsToJson_ordered : ∀ {items : List Json} {vs : List Toml}, itemsOfJson items = .ok vs →
    itemsToJson datetime (orderedItems vs) = Json.sortedItems items
  | [], _, h => by
      obtain rfl := Except.ok.inj h
      rfl
  | j :: rest, _, h => by
      obtain ⟨v, hv, h⟩ := bind_eq_ok h
      obtain ⟨vs, hvs, h⟩ := bind_eq_ok h
      obtain rfl := Except.ok.inj h
      rw [orderedItems, itemsToJson, toJson_ordered hv, itemsToJson_ordered hvs]
      rfl

theorem membersToJson_ordered : ∀ {members : Json.Members} {ms : Members}, membersOfJson members = .ok ms →
    membersToJson datetime (orderedMembers ms) = Json.sortedMembers members
  | [], _, h => by
      obtain rfl := Except.ok.inj h
      rfl
  | (k, j) :: rest, _, h => by
      obtain ⟨v, hv, h⟩ := bind_eq_ok h
      obtain ⟨ms, hms, h⟩ := bind_eq_ok h
      obtain rfl := Except.ok.inj h
      rw [orderedMembers, membersToJson_insertSorted, toJson_ordered hv, membersToJson_ordered hms]
      rfl

end

end DecoderForge.Toml
