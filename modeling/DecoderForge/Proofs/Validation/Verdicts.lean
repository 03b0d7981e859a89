import DecoderForge.Proofs.Result
import DecoderForge.Proofs.Schema.Inside
import DecoderForge.Proofs.Validation.Parts

/-!
# DecoderForge — when constraints find nothing wrong

What a constraint finds wrong is a list; whether it is empty is said here part by part, for the constraints that
rows of schemas are read as.

## The architecture

* **`issuesOfAll_eq_nil_iff`**, **`issuesInTurn_eq_nil_iff`**, **`issuesOfProperties_eq_nil_iff`** and so on — rows of
  constraints.
* **`SchemaReading.part_eq`** — the schemas in the value of a neighbour.
-/

namespace DecoderForge

namespace Constraint

variable {follow : Url → Finder} {path : String}

theorem issues_any (w : Json) : any.issues follow w path = [] := by
  rw [any, issues, issuesOfAll]

theorem assert_eq_nil_iff {a : Assertion} {w : Json} : (assert a).issues follow w path = [] ↔ a.faults w = [] := by
  rw [issues, List.map_eq_nil_iff]

theorem issuesOfAll_eq_nil_iff {w : Json} : ∀ {cs : List Constraint},
    issuesOfAll follow cs w path = [] ↔ ∀ c ∈ cs, c.issues follow w path = []
  | [] => by simp [issuesOfAll]
  | c :: rest => by
      rw [issuesOfAll, List.append_eq_nil_iff, issuesOfAll_eq_nil_iff, List.forall_mem_cons]

theorem countAllowing_eq {w : Json} : ∀ cs : List Constraint, countAllowing follow cs w path
    = cs.countP fun c => (c.issues follow w path).isEmpty
  | [] => by rw [countAllowing, List.countP_nil]
  | c :: rest => by
      rw [countAllowing, countAllowing_eq rest, List.countP_cons, Nat.add_comm]

theorem issuesInTurn_eq_nil_iff : ∀ {cs : List Constraint} {i : Nat} {vs : List Json},
    issuesInTurn follow cs i vs path = [] ↔ ∀ (j : Nat) (c : Constraint) (v : Json), cs[j]? = some c → vs[j]? = some v →
      c.issues follow v (Issue.belowIndex path (i + j)) = []
  | [], _, _ => by simp [issuesInTurn]
  | _ :: _, _, [] => by simp [issuesInTurn]
  | c :: rest, i, v :: vs => by
      rw [issuesInTurn, List.append_eq_nil_iff, issuesInTurn_eq_nil_iff]
      constructor
      · rintro ⟨hfirst, hrest⟩ j d w hd hw
        cases j with
        | zero =>
            obtain rfl := Option.some.inj hd
            obtain rfl := Option.some.inj hw
            exact hfirst
        | succ j =>
            rw [← Nat.add_assoc, Nat.add_right_comm]
            exact hrest j d w hd hw
      · intro h
        refine ⟨h 0 c v rfl rfl, fun j d w hd hw => ?_⟩
        rw [Nat.add_right_comm, Nat.add_assoc]
        exact h (j + 1) d w hd hw

theorem issuesOfProperties_eq_nil_iff {members : Json.Members} : ∀ {known : List (String × Constraint)},
    issuesOfProperties follow known members path = [] ↔ ∀ k ∈ known, ∀ v, members.get? k.1 = some v →
      k.2.issues follow v (Issue.below path k.1) = []
  | [] => by simp [issuesOfProperties]
  | (name, c) :: rest => by
      rw [issuesOfProperties, List.append_eq_nil_iff, issuesOfProperties_eq_nil_iff, List.forall_mem_cons]
      refine and_congr_left fun _ => ?_
      cases hget : members.get? name with
      | none => simp
      | some v => simp

theorem issuesOfPatterns_eq_nil_iff {members : Json.Members} : ∀ {patterned : List (Pattern.Node × Constraint)},
    issuesOfPatterns follow patterned members path = [] ↔ ∀ p ∈ patterned, ∀ m ∈ members, p.1.isFoundIn m.1 = true →
      p.2.issues follow m.2 (Issue.below path m.1) = []
  | [] => by simp [issuesOfPatterns]
  | (node, c) :: rest => by
      rw [issuesOfPatterns, List.append_eq_nil_iff, issuesOfPatterns_eq_nil_iff, List.forall_mem_cons,
        List.flatMap_eq_nil_iff]
      refine and_congr_left fun _ => forall₂_congr fun m _ => ?_
      cases node.isFoundIn m.1 <;> simp

theorem issuesOfDependencies_eq_nil_iff {members : Json.Members} : ∀ {known : List (String × Constraint)},
    issuesOfDependencies follow known members path = [] ↔ ∀ k ∈ known, members.contains k.1 = true →
      k.2.issues follow (.obj members) path = []
  | [] => by simp [issuesOfDependencies]
  | (name, c) :: rest => by
      rw [issuesOfDependencies, List.append_eq_nil_iff, issuesOfDependencies_eq_nil_iff, List.forall_mem_cons]
      refine and_congr_left fun _ => ?_
      cases members.contains name <;> simp

end Constraint

/-! ## Neighbours -/

namespace SchemaReading

theorem lookup_partsWith (read : Json → Read) (keyword : String) : ∀ members : Json.Members,
    (partsWith read members).lookup keyword
      = (members.get? keyword).map fun v => (SchemaPlace.ofKeyword keyword).partWith read v
  | [] => rfl
  | m :: rest => by
      have ih := lookup_partsWith read keyword rest
      unfold partsWith Json.Members.get? at ih ⊢
      rw [List.map_cons, List.lookup_cons, List.lookup_cons, ih]
      cases hkey : keyword == m.1 with
      | true =>
          obtain rfl := eq_of_beq hkey
          rfl
      | false => rfl

/-- **The schemas in the value of a neighbour.** -/
theorem part_eq {d : Dialect} {read : Json → Read} {members : Json.Members} {keyword : String} {v : Json}
    (h : members.get? keyword = some v) :
    Surroundings.part ⟨d, members, partsWith read members⟩ keyword
      = (SchemaPlace.ofKeyword keyword).partWith read v := by
  unfold Surroundings.part
  rw [lookup_partsWith, h]
  rfl

theorem part_none {d : Dialect} {read : Json → Read} {members : Json.Members} {keyword : String}
    (h : members.get? keyword = none) : Surroundings.part ⟨d, members, partsWith read members⟩ keyword = .none := by
  unfold Surroundings.part
  rw [lookup_partsWith, h]
  rfl

end SchemaReading

end DecoderForge
