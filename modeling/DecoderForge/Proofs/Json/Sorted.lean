import DecoderForge.Proofs.Json.Members
import DecoderForge.Proofs.Schema.Inside
import DecoderForge.Validation.Equality
import Mathlib.Data.String.Basic

/-!
# DecoderForge — members in order

Where each name occurs once, members in another order have the same value under each name.  Values that are in
order already stay as they are.

## The architecture

* **`lookup_of_perm`** — members in another order.
* **`sorted_sorted`** — a value in order stays as it is.
* **`get?_sortedMembers`** — in order the same members are found.
-/

namespace DecoderForge.Json

/-! ## Members in another order -/

section Lookup

variable {α β : Type}

theorem lookup_cons_eq_ite (k key : String) (v : α) (rest : List (String × α)) :
    List.lookup key ((k, v) :: rest) = if key = k then some v else rest.lookup key := by
  rw [List.lookup_cons]
  by_cases h : key = k
  · rw [h, beq_self_eq_true, if_pos rfl]
  · rw [beq_false_of_ne h, if_neg h]

theorem lookup_eq_none_of_notMem {key : String} {l : List (String × α)} (h : key ∉ l.map Prod.fst) :
    l.lookup key = none := by
  refine List.lookup_eq_none_iff.mpr fun m hm => ?_
  rw [bne_iff_ne]
  rintro rfl
  exact h (List.mem_map_of_mem hm)

/-- What stands under a name does not depend on the order, where names differ. -/
theorem lookup_of_perm {l l' : List (String × α)} (h : l.Perm l') (hnodup : (l.map Prod.fst).Nodup) (key : String) :
    l.lookup key = l'.lookup key := by
  induction h with
  | nil => rfl
  | cons m _ ih => rw [lookup_cons_eq_ite, lookup_cons_eq_ite, ih hnodup.of_cons]
  | swap m n rest =>
    obtain ⟨hn, -⟩ := List.nodup_cons.mp hnodup
    have hne : n.1 ≠ m.1 := fun heq => hn (heq ▸ List.mem_cons_self)
    obtain ⟨k, v⟩ := m
    obtain ⟨l, w⟩ := n
    simp only [lookup_cons_eq_ite]
    by_cases hk : key = k
    · have hl : key ≠ l := fun heq => hne (heq.symm.trans hk)
      rw [if_pos hk, if_neg hl, if_pos hk]
    · rw [if_neg hk, if_neg hk]
  | trans h _ ih ih' => exact (ih hnodup).trans (ih' ((h.map Prod.fst).nodup_iff.mp hnodup))

theorem lookup_map_snd (f : α → β) (key : String) : ∀ l : List (String × α),
    (l.map fun m => (m.1, f m.2)).lookup key = (l.lookup key).map f
  | [] => rfl
  | (k, v) :: rest => by
      rw [List.map_cons, lookup_cons_eq_ite, lookup_cons_eq_ite, lookup_map_snd f key rest, apply_ite (Option.map f)]
      rfl

end Lookup

/-! ## Insertion by name -/

section Insertion

variable {α : Type}

/-- Something inserted by its name. -/
def insertByName (m : String × α) : List (String × α) → List (String × α)
  | [] => [m]
  | n :: rest => if m.1 < n.1 then m :: n :: rest else n :: insertByName m rest

theorem insertByName_perm (m : String × α) : ∀ rest : List (String × α), (insertByName m rest).Perm (m :: rest)
  | [] => .refl _
  | n :: rest => by
      unfold insertByName
      split
      · exact .refl _
      · exact ((insertByName_perm m rest).cons n).trans (.swap m n rest)

/-- Whether things stand in the order of their names. -/
def IsSorted (l : List (String × α)) : Prop := l.Pairwise fun m n => m.1 < n.1

theorem isSorted_insertByName {m : String × α} : ∀ {rest : List (String × α)}, IsSorted rest →
    m.1 ∉ rest.map Prod.fst → IsSorted (insertByName m rest)
  | [], _, _ => List.pairwise_singleton _ _
  | n :: rest, h, hnew => by
      obtain ⟨hn, hrest⟩ := List.pairwise_cons.mp h
      unfold insertByName
      split
      · rename_i hlt
        refine List.pairwise_cons.mpr ⟨fun o ho => ?_, h⟩
        rcases List.mem_cons.mp ho with rfl | ho
        · exact hlt
        · exact lt_trans hlt (hn o ho)
      · rename_i hge
        obtain ⟨hne, hnew⟩ := not_or.mp (mt List.mem_cons.mpr hnew)
        refine List.pairwise_cons.mpr ⟨fun o ho => ?_, isSorted_insertByName hrest hnew⟩
        rcases List.mem_cons.mp ((insertByName_perm m rest).mem_iff.mp ho) with rfl | ho
        · exact lt_of_le_of_ne (not_lt.mp hge) (Ne.symm hne)
        · exact hn o ho

end Insertion

/-! ## Members in order -/

mutual

/-- Whether objects have each name once, at any depth. -/
def HasDistinctNames : Json → Prop
  | .arr items => ItemsHaveDistinctNames items
  | .obj members => MembersHaveDistinctNames members
  | _ => True

/-- Whether items do. -/
def ItemsHaveDistinctNames : List Json → Prop
  | [] => True
  | v :: rest => HasDistinctNames v ∧ ItemsHaveDistinctNames rest

/-- Whether members have each name once, and their values do. -/
def MembersHaveDistinctNames : List (String × Json) → Prop
  | [] => True
  | (k, v) :: rest => k ∉ Members.names rest ∧ HasDistinctNames v ∧ MembersHaveDistinctNames rest

end

theorem MembersHaveDistinctNames.nodup : ∀ {members : Members}, MembersHaveDistinctNames members →
    members.names.Nodup
  | [], _ => List.Pairwise.nil
  | (_, _) :: _, ⟨hk, _, hrest⟩ => List.nodup_cons.mpr ⟨hk, hrest.nodup⟩

theorem ItemsHaveDistinctNames.of_mem {v : Json} : ∀ {items : List Json}, ItemsHaveDistinctNames items → v ∈ items →
    HasDistinctNames v
  | _ :: _, h, .head _ => h.1
  | _ :: _, h, .tail _ hv => of_mem h.2 hv

theorem MembersHaveDistinctNames.of_mem {k : String} {v : Json} : ∀ {members : Members},
    MembersHaveDistinctNames members → (k, v) ∈ members → HasDistinctNames v
  | _ :: _, h, .head _ => h.2.1
  | _ :: _, h, .tail _ hv => of_mem h.2.2 hv

/-- Every value inside has each name once, too. -/
theorem HasDistinctNames.inside {w v : Json} (h : HasDistinctNames v) (hw : Inside w v) : HasDistinctNames w := by
  induction hw with
  | item hmem => exact ItemsHaveDistinctNames.of_mem h hmem
  | member hmem => exact MembersHaveDistinctNames.of_mem h hmem
  | trans _ _ ih ih' => exact ih (ih' h)

theorem insertSorted_eq (m : String × Json) : ∀ rest : Members, insertSorted m rest = insertByName m rest
  | [] => rfl
  | n :: rest => by rw [insertSorted, insertByName, insertSorted_eq m rest]

theorem sortedMembers_perm : ∀ members : Members,
    (sortedMembers members).Perm (members.map fun m => (m.1, m.2.sorted))
  | [] => .refl _
  | (k, v) :: rest => by
      rw [sortedMembers, insertSorted_eq]
      exact (insertByName_perm _ _).trans ((sortedMembers_perm rest).cons _)

theorem names_sortedMembers (members : Members) :
    (Members.names (sortedMembers members)).Perm members.names := by
  have h := (sortedMembers_perm members).map Prod.fst
  rwa [List.map_map] at h

theorem get?_sortedMembers {members : Members} (h : members.names.Nodup) (key : String) :
    Members.get? (sortedMembers members) key = (members.get? key).map sorted := by
  have hnodup : (Members.names (sortedMembers members)).Nodup := (names_sortedMembers members).nodup_iff.mpr h
  exact (lookup_of_perm (sortedMembers_perm members) hnodup key).trans (lookup_map_snd sorted key members)

/-! ## In order already -/

theorem isSorted_sortedMembers : ∀ {members : Members}, members.names.Nodup → IsSorted (sortedMembers members)
  | [], _ => List.Pairwise.nil
  | (k, v) :: rest, h => by
      obtain ⟨hk, hrest⟩ := List.nodup_cons.mp h
      rw [sortedMembers, insertSorted_eq]
      exact isSorted_insertByName (isSorted_sortedMembers hrest) (mt (names_sortedMembers rest).mem_iff.mp hk)

/-- Members in order keep their places. -/
theorem sortedMembers_of_isSorted : ∀ {members : Members}, IsSorted members →
    sortedMembers members = members.map fun m => (m.1, m.2.sorted)
  | [], _ => rfl
  | (k, v) :: rest, h => by
      obtain ⟨hk, hrest⟩ := List.pairwise_cons.mp h
      rw [sortedMembers, sortedMembers_of_isSorted hrest]
      cases rest with
      | nil => rfl
      | cons n rest => exact if_pos (hk n List.mem_cons_self)

theorem sortedItems_eq_map (items : List Json) : sortedItems items = items.map sorted := by
  induction items with
  | nil => rfl
  | cons v rest ih => rw [sortedItems, List.map_cons, ih]

/-- **A value in order stays as it is.** -/
theorem sorted_sorted {v : Json} (h : HasDistinctNames v) : v.sorted.sorted = v.sorted := by
  induction v using inside_induction with
  | _ v ih =>
  cases v with
  | null | bool _ | num _ | str _ => rfl
  | arr items =>
      have hitems : ∀ w ∈ items, w.sorted.sorted = w.sorted := fun w hw => ih w (.item hw) (h.inside (.item hw))
      rw [sorted, sorted, sortedItems_eq_map, sortedItems_eq_map, List.map_map]
      exact congrArg Json.arr (List.map_congr_left hitems)
  | obj members =>
      have hin := isSorted_sortedMembers (MembersHaveDistinctNames.nodup h)
      have hvalues : ∀ m ∈ sortedMembers members, (m.1, m.2.sorted) = m := by
        intro m hm
        obtain ⟨n, hn, rfl⟩ := List.mem_map.mp ((sortedMembers_perm members).mem_iff.mp hm)
        rw [ih n.2 (.member hn) (h.inside (.member hn))]
      -- in order already, the members keep their places, and by induction their values stay
      have hstay : sortedMembers (sortedMembers members) = sortedMembers members := by
        rw [sortedMembers_of_isSorted hin, List.map_congr_left hvalues, List.map_id']
      exact congrArg Json.obj hstay

/-- Members in order are the same members. -/
theorem map_sorted_get?_sortedMembers {members : Members} (h : MembersHaveDistinctNames members) (key : String) :
    (Members.get? (sortedMembers members) key).map sorted = (members.get? key).map sorted := by
  rw [get?_sortedMembers h.nodup]
  cases hv : members.get? key with
  | none => rfl
  | some v =>
    exact congrArg some (sorted_sorted (h.of_mem (mem_of_get? hv)))

end DecoderForge.Json
