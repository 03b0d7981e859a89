import DecoderForge.Json.Basic
import Mathlib.Data.List.Basic
import Mathlib.Tactic.Common

/-!
# DecoderForge — members written one after the other

A member is written over the one of its name, and behind all others where there is none.

## The architecture

* **`Members.get?_insert`** — one member written.
* **`Members.get?_insertAll`** — the run: what was written last under a name stands there.
* **`Members.insertAll_eq_append`** — members with names of their own are appended.
-/

namespace DecoderForge.Json.Members

/-- The names of members. -/
def names (members : Members) : List String := members.map Prod.fst

@[simp] theorem names_append (first second : Members) : (first ++ second).names = first.names ++ second.names :=
  List.map_append

/-- Members with more written to them in turn. -/
def insertAll (found more : Members) : Members := more.foldl (fun ms (k, v) => ms.insert k v) found

theorem insertAll_append (found first second : Members) :
    insertAll found (first ++ second) = insertAll (insertAll found first) second := List.foldl_append

theorem get?_cons (k key : String) (v : Json) (rest : Members) :
    get? ((k, v) :: rest) key = if key = k then some v else get? rest key := by
  by_cases h : key = k
  · simp [get?, h]
  · rw [if_neg h, get?, get?, List.lookup_cons, beq_false_of_ne h]

theorem get?_append (first second : Members) (key : String) :
    get? (first ++ second) key = (first.get? key).or (second.get? key) := List.lookup_append

theorem exists_get? : ∀ {members : Members} {name : String}, name ∈ members.names → ∃ v, members.get? name = some v
  | (k, v) :: rest, name, h => by
      rw [get?_cons]
      by_cases hk : name = k
      · exact ⟨v, if_pos hk⟩
      · rw [if_neg hk]
        exact exists_get? ((List.mem_cons.mp h).resolve_left hk)

/-! ## One member -/

/-- **A written member stands under its name**, and the others stay. -/
theorem get?_insert : ∀ (members : Members) (name : String) (v : Json) (key : String),
    (members.insert name v).get? key = if key = name then some v else members.get? key
  | [], name, v, key => get?_cons name key v []
  | (k, w) :: rest, name, v, key => by
      unfold insert
      by_cases hk : (k == name) = true
      · obtain rfl := beq_iff_eq.mp hk
        rw [if_pos hk, get?_cons, get?_cons]
        by_cases hkey : key = k
        · rw [if_pos hkey, if_pos hkey]
        · rw [if_neg hkey, if_neg hkey, if_neg hkey]
      · rw [if_neg hk, get?_cons, get?_cons, get?_insert rest name v key]
        by_cases hkey : key = k
        · -- the name in front is not the one that is written
          have hname : key ≠ name := fun heq => hk (beq_iff_eq.mpr (hkey.symm.trans heq))
          rw [if_pos hkey, if_neg hname, if_pos hkey]
        · rw [if_neg hkey, if_neg hkey]

/-- A member of a new name is appended. -/
theorem insert_eq_append {name : String} {v : Json} :
    ∀ {members : Members}, name ∉ members.names → members.insert name v = members ++ [(name, v)]
  | [], _ => rfl
  | (k, w) :: rest, h => by
      obtain ⟨hk, hrest⟩ := not_or.mp (mt List.mem_cons.mpr h)
      rw [insert, if_neg (mt beq_iff_eq.mp (Ne.symm hk)), insert_eq_append hrest]
      rfl

/-- A member of a name that is there takes its place. -/
theorem names_insert {name : String} {v : Json} :
    ∀ {members : Members}, name ∈ members.names → (members.insert name v).names = members.names
  | (k, w) :: rest, h => by
      unfold insert
      by_cases hk : (k == name) = true
      · rw [if_pos hk]
        rfl
      · rw [if_neg hk]
        have hrest : name ∈ names rest := (List.mem_cons.mp h).resolve_left fun heq => hk (beq_iff_eq.mpr heq.symm)
        exact congrArg (k :: ·) (names_insert hrest)

theorem nodup_insert {members : Members} (h : members.names.Nodup) (name : String) (v : Json) :
    (members.insert name v).names.Nodup := by
  by_cases hname : name ∈ members.names
  · rwa [names_insert hname]
  · rw [insert_eq_append hname, names_append]
    refine List.nodup_append.mpr ⟨h, List.pairwise_singleton _ _, ?_⟩
    rintro k hk _ hk' rfl
    obtain rfl : k = name := List.mem_singleton.mp hk'
    exact hname hk

/-! ## Members in turn -/

/-- **What was written last under a name stands there.** -/
theorem get?_insertAll : ∀ (more found : Members) (key : String),
    (insertAll found more).get? key = (get? more.reverse key).or (found.get? key)
  | [], _, _ => rfl
  | (name, v) :: more, found, key => by
      have ih : (insertAll found ((name, v) :: more)).get? key
          = (get? more.reverse key).or ((found.insert name v).get? key) :=
        get?_insertAll more (found.insert name v) key
      rw [ih, List.reverse_cons, get?_append, Option.or_assoc, get?_insert, get?_cons]
      by_cases h : key = name
      · rw [if_pos h, if_pos h]
        rfl
      · rw [if_neg h, if_neg h]
        rfl

theorem nodup_insertAll : ∀ {more found : Members}, found.names.Nodup → (insertAll found more).names.Nodup
  | [], _, h => h
  | (name, v) :: more, _, h => @nodup_insertAll more _ (nodup_insert h name v)

/-- **Members with names of their own are appended.** -/
theorem insertAll_eq_append : ∀ {more found : Members}, more.names.Nodup → (∀ k ∈ more.names, k ∉ found.names) →
    insertAll found more = found ++ more
  | [], _, _, _ => (List.append_nil _).symm
  | (name, v) :: more, found, hnodup, hnew => by
      obtain ⟨hname, hmore⟩ := List.nodup_cons.mp hnodup
      have hinsert : found.insert name v = found ++ [(name, v)] :=
        insert_eq_append (hnew name List.mem_cons_self)
      have hnew' : ∀ k ∈ names more, k ∉ (found.insert name v).names := by
        intro k hk
        rw [hinsert, names_append]
        refine List.not_mem_append (hnew k (List.mem_cons_of_mem _ hk)) ?_
        intro hk'
        obtain rfl : k = name := List.mem_singleton.mp hk'
        exact hname hk
      have ih : insertAll found ((name, v) :: more) = found.insert name v ++ more :=
        insertAll_eq_append hmore hnew'
      rw [ih, hinsert, List.append_assoc]
      rfl

/-- Names that are written once are read in either direction. -/
theorem get?_reverse {members : Members} (h : members.names.Nodup) (key : String) :
    get? members.reverse key = members.get? key := by
  have hall : insertAll [] members = members := insertAll_eq_append h fun _ _ => List.not_mem_nil
  have hlast := get?_insertAll members [] key
  rw [hall] at hlast
  exact (hlast.trans Option.or_none).symm

end DecoderForge.Json.Members
