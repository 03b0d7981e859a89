import DecoderForge.Proofs.Validation.Named
import Mathlib.Logic.Relation
import Mathlib.Tactic.Linarith

/-!
# DecoderForge — what references mean

Given the schema that each reference denotes, a schema accepts a value or not, whatever looks the references
up.  The number of references that may be followed one inside another plays no part in this as soon as it is
large enough; and it can only be too small for every number if a reference leads back to itself on one value.

## The architecture

* **`Meaning`** — the schema that each reference denotes, and **`Meaning.Accepts`** by it.
* **`Meaning.Endless`** — a reference that leads back to itself on the same value.
* **`Meaning.ends_of_not_endless`** — where there is none, references lead on from each other only so often.
* **`Meaning.allows_iff_accepts`** — so many steps are enough.
-/

namespace DecoderForge

open SchemaReading

/-- What references mean: the schema that each denotes, if any. -/
abbrev Meaning := String → Option Json

namespace Meaning

/-! ## Verdicts -/

/-- A reference as it is written, in the place of a URL. -/
def written (r : String) : Url := ⟨[], none, .rootless r.toList, none, none⟩

/-- The reference in the place of a URL. -/
def spelling (url : Url) : String := String.ofList url.path.toText

@[simp] theorem spelling_written (r : String) : spelling (written r) = r := String.ofList_toList

/-- A schema with its references as they are written. -/
def read (d : Dialect) (t : Json) : Read := Constraint.readBy d (fun r => .ok (written r)) t

/-- Everything that the schema under a reference finds wrong with the value at a place.  The number counts
how many references may still be followed one inside another. -/
def issuesAt (m : Meaning) (d : Dialect) : Nat → Url → Constraint.Finder
  | 0, _, _, path => [⟨path, "too many references"⟩]
  | n + 1, url, v, path =>
    match m (spelling url) with
    | none => [⟨path, "no schema"⟩]
    | some t =>
      match read d t with
      | .error reason => [⟨path, reason⟩]
      | .ok c => c.issues (issuesAt m d n) v path

theorem issuesAt_succ_eq_nil_iff {m : Meaning} {d : Dialect} {r : String} {t : Json} (hr : m r = some t) (n : Nat)
    (v : Json) (path : String) : m.issuesAt d (n + 1) (written r) v path = []
      ↔ ∃ c, read d t = .ok c ∧ c.issues (m.issuesAt d n) v path = [] := by
  rw [issuesAt, spelling_written, hr]
  cases hread : read d t with
  | error reason => simp [hread]
  | ok c => simp [hread]

/-- Whether nothing is wrong with a value by a schema, where so many references may be followed. -/
def Allows (m : Meaning) (d : Dialect) (n : Nat) (t v : Json) : Prop :=
  ∃ c, read d t = .ok c ∧ c.issues (m.issuesAt d n) v "" = []

/-- Whether a schema accepts a value: nothing is wrong with it as soon as enough references may be
followed. -/
def Accepts (m : Meaning) (d : Dialect) (t v : Json) : Prop := ∃ enough, ∀ n ≥ enough, m.Allows d n t v

/-! ## The way of references -/

/-- A reference leads to another on the same value. -/
def Leads (m : Meaning) (r r' : String) : Prop := ∃ t, m r = some t ∧ t.Asks true r'

/-- The references that are reached from a schema. -/
inductive Reaches (m : Meaning) (t : Json) : String → Prop where
  | asked {same : Bool} {r : String} (h : t.Asks same r) : Reaches m t r
  | step {r r' : String} {u : Json} {same : Bool} (h : Reaches m t r) (hr : m r = some u)
      (hasks : u.Asks same r') : Reaches m t r'

/-- Some reference that is reached from a schema leads back to itself on the same value. -/
def Endless (m : Meaning) (t : Json) : Prop := ∃ r, m.Reaches t r ∧ Relation.TransGen m.Leads r r

variable {m : Meaning} {d : Dialect} {t : Json}

theorem Reaches.leads {r r' : String} (h : m.Reaches t r) (hleads : m.Leads r r') : m.Reaches t r' := by
  obtain ⟨u, hr, hasks⟩ := hleads
  exact .step h hr hasks

theorem Reaches.transGen {r r' : String} (h : m.Reaches t r) (hleads : Relation.TransGen m.Leads r r') :
    m.Reaches t r' := by
  induction hleads with
  | single hleads => exact h.leads hleads
  | tail _ hleads ih => exact ih.leads hleads

/-- Where every step leads to a lower reference, none leads back to itself. -/
theorem not_endless_of_rank (rank : String → Nat) (h : ∀ r r', m.Reaches t r → m.Leads r r' → rank r' < rank r) :
    ¬ m.Endless t := by
  rintro ⟨r, hr, hcycle⟩
  have hlower : ∀ r', Relation.TransGen m.Leads r r' → rank r' < rank r := by
    intro r' htrans
    induction htrans with
    | single hleads => exact h _ _ hr hleads
    | tail hbefore hleads ih => exact Nat.lt_trans (h _ _ (hr.transGen hbefore) hleads) ih
  exact Nat.lt_irrefl _ (hlower r hcycle)

/-- References that are reached stand in the schemas that are passed. -/
theorem Reaches.mem {refs : List String} (ht : t.references ⊆ refs)
    (hm : ∀ r u, m r = some u → u.references ⊆ refs) {r : String} (h : m.Reaches t r) : r ∈ refs := by
  induction h with
  | asked hasks => exact ht hasks.mem_references
  | step _ hr hasks _ => exact hm _ _ hr hasks.mem_references

/-- Only the meaning of what is reached counts for what is reached. -/
theorem Reaches.of_eq {m' : Meaning} (hsame : ∀ r, m'.Reaches t r → m r = m' r) {r : String} (h : m.Reaches t r) :
    m'.Reaches t r := by
  induction h with
  | asked hasks => exact .asked hasks
  | step _ hr hasks ih => exact .step ih (hsame _ ih ▸ hr) hasks

theorem Endless.of_eq {m' : Meaning} (hsame : ∀ r, m'.Reaches t r → m r = m' r) (h : m.Endless t) : m'.Endless t := by
  obtain ⟨r, hr, hcycle⟩ := h
  have hleads : ∀ {r r' : String}, m.Reaches t r → m.Leads r r' → m'.Leads r r' := fun hr ⟨u, hu, hasks⟩ =>
    ⟨u, hsame _ (hr.of_eq hsame) ▸ hu, hasks⟩
  have htrans : ∀ {r'}, Relation.TransGen m.Leads r r' → Relation.TransGen m'.Leads r r' := by
    intro r' h
    induction h with
    | single h => exact .single (hleads hr h)
    | tail hbefore h ih => exact .tail ih (hleads (hr.transGen hbefore) h)
  exact ⟨r, hr.of_eq hsame, htrans hcycle⟩

/-- At most so many references lead on from each other on the same value. -/
def Ends (m : Meaning) : Nat → String → Prop
  | 0, _ => False
  | k + 1, r => ∀ r', m.Leads r r' → m.Ends k r'

/-- **Where no reference leads back to itself**, at most as many lead on from each other as there are. -/
theorem ends_of_not_endless (hend : ¬ m.Endless t) : ∀ (refs : List String) {r : String}, m.Reaches t r →
    (∀ r', Relation.TransGen m.Leads r r' → r' ∈ refs) → m.Ends (refs.length + 1) r := by
  intro refs
  -- each reference that is passed cannot be met again, so it is taken from the list
  induction hn : refs.length generalizing refs with
  | zero =>
      intro r hr hall r' hleads
      obtain rfl := List.length_eq_zero_iff.mp hn
      exact absurd (hall r' (.single hleads)) (by simp)
  | succ n ih =>
      intro r hr hall r' hleads
      have hmem : r' ∈ refs := hall r' (.single hleads)
      refine ih (refs.erase r') ?_ (hr.leads hleads) fun r'' htrans => ?_
      · rw [List.length_erase_of_mem hmem, hn]
        rfl
      · have hne : r'' ≠ r' := by
          rintro rfl
          exact hend ⟨r'', hr.leads hleads, htrans⟩
        exact (List.mem_erase_of_ne hne).mpr (hall r'' (.head hleads htrans))

/-! ## Enough steps -/

/-- How references of a schema correspond to themselves: those about the value itself are led to. -/
def Self (m : Meaning) (t : Json) (leads : String → Prop) (same : Bool) (url url' : Url) : Prop :=
  ∃ r, url = written r ∧ url' = written r ∧ m.Reaches t r ∧ (same = true → leads r)

/-- What is found by a schema where the findings for its references agree. -/
theorem issues_agree_self {u v : Json} {c : Constraint} (hread : read d u = .ok c) {leads : String → Prop}
    (hreach : ∀ same r, u.Asks same r → m.Reaches t r) (hleads : ∀ r, u.Asks true r → leads r)
    {follow follow' : Url → Constraint.Finder} (hagree : Constraint.AgreeUnder (.on v (Self m t leads)) follow follow')
    (path : String) : c.issues follow v path = [] ↔ c.issues follow' v path = [] := by
  -- the reading is compared with itself: only the references in it are left
  have halike : ReadAlike (Constraint.Alike (.on v (Self m t leads)) true) (read d u) (read d u) := by
    refine Constraint.readBy_alike u fun same r hasks => ⟨_, _, rfl, rfl, r, rfl, rfl, hreach same r hasks, ?_⟩
    rintro rfl
    exact hleads r hasks
  rw [hread] at halike
  cases halike with
  | ok hc => exact Constraint.agree_of_alike hagree hc v path rfl

/-- **Only references that are reached count**: two meanings that agree on them accept the same values. -/
theorem accepts_congr {m' : Meaning} (hsame : ∀ r, m.Reaches t r → m r = m' r) (v : Json) :
    m.Accepts d t v ↔ m'.Accepts d t v := by
  have hunder : ∀ n r, m.Reaches t r → ∀ w path,
      m.issuesAt d n (written r) w path = [] ↔ m'.issuesAt d n (written r) w path = [] := by
    intro n
    induction n with
    | zero => simp [issuesAt]
    | succ n ih =>
        intro r hr w path
        rw [issuesAt, issuesAt, spelling_written, ← hsame r hr]
        cases hm : m r with
        | none => rfl
        | some u =>
            cases hread : read d u with
            | error reason => simp [hread]
            | ok c =>
                simp only [hread]
                refine issues_agree_self hread (fun _ r' hasks => hr.step hm hasks) (fun _ _ => trivial) ?_ path
                rintro same _ _ ⟨r', rfl, rfl, hr', -⟩ x path' -
                exact ih r' hr' x path'
  refine exists_congr fun enough => forall_congr' fun n => imp_congr_right fun _ =>
    exists_congr fun c => and_congr_right fun hread => ?_
  have hagree : Constraint.AgreeUnder (.on v (Self m t fun _ => True)) (m.issuesAt d n) (m'.issuesAt d n) := by
    rintro same _ _ ⟨r, rfl, rfl, hr, -⟩ w path -
    exact hunder n r hr w path
  exact issues_agree_self hread (fun _ r hasks => .asked hasks) (fun _ _ => trivial) hagree ""

variable {most : Nat} (hends : ∀ r, m.Reaches t r → m.Ends most r)

include hends

/-- What is found under a reference does not depend on a number that is large enough. -/
theorem issuesAt_agree_self : ∀ (h k : Nat) {r : String} {v : Json} {n n' : Nat}, m.Reaches t r → m.Ends k r →
    v.height = h → h * most + k ≤ n → h * most + k ≤ n' →
      ∀ path, m.issuesAt d n (written r) v path = [] ↔ m.issuesAt d n' (written r) v path = [] := by
  intro h
  -- first by the height of the value, then by how many references lead on from each other
  induction h using Nat.strong_induction_on with
  | _ h ih =>
    intro k
    induction k with
    | zero => exact fun _ hend => hend.elim
    | succ k ihk =>
        intro r v n n' hr hend hv hn hn' path
        obtain ⟨n, rfl⟩ : ∃ j, n = j + 1 := ⟨n - 1, by omega⟩
        obtain ⟨n', rfl⟩ : ∃ j, n' = j + 1 := ⟨n' - 1, by omega⟩
        rw [issuesAt, issuesAt, spelling_written]
        cases hm : m r with
        | none => simp
        | some u =>
            have hagree : Constraint.AgreeUnder (.on v (Self m t (m.Leads r))) (m.issuesAt d n) (m.issuesAt d n') := by
              rintro same _ _ ⟨r', rfl, rfl, hreach, hleads⟩ w path hw
              cases same with
              | true =>
                  -- the same value, one reference nearer to the end
                  obtain rfl : w = v := hw
                  exact ihk hreach (hend r' (hleads rfl)) hv (by omega) (by omega) path
              | false =>
                  -- a value inside, with all its references before it
                  have hlow : w.height < h := hv ▸ hw
                  have hbound : w.height * most + most ≤ h * most := by
                    have := Nat.mul_le_mul_right most hlow
                    rwa [Nat.succ_mul] at this
                  exact ih w.height hlow most hreach (hends r' hreach) rfl (by omega) (by omega) path
            cases hread : read d u with
            | error reason => simp [hread]
            | ok c =>
                simp only [hread]
                exact issues_agree_self hread (fun _ r' hasks => hr.step hm hasks)
                  (fun r' hasks => ⟨u, hm, hasks⟩) hagree path

/-- A number that is large enough is as good as any larger one. -/
theorem allows_iff_of_le {v : Json} {n n' : Nat} (hn : (v.height + 1) * most ≤ n)
    (hn' : (v.height + 1) * most ≤ n') : m.Allows d n t v ↔ m.Allows d n' t v := by
  have hagree : Constraint.AgreeUnder (.on v (Self m t fun _ => True)) (m.issuesAt d n) (m.issuesAt d n') := by
    rintro same _ _ ⟨r', rfl, rfl, hreach, -⟩ w path hw
    have hlow : w.height ≤ v.height := by
      cases same with
      | true => exact le_of_eq (congrArg Json.height hw)
      | false => exact le_of_lt hw
    have hbound : w.height * most + most ≤ (v.height + 1) * most := by
      have := Nat.mul_le_mul_right most (Nat.succ_le_succ hlow)
      rwa [Nat.succ_mul] at this
    exact issuesAt_agree_self hends w.height most hreach (hends r' hreach) rfl (by omega) (by omega) path
  unfold Allows
  refine exists_congr fun c => and_congr_right fun hread => ?_
  exact issues_agree_self hread (fun _ r' hasks => .asked hasks) (fun _ _ => trivial) hagree ""

/-- **So many steps are enough.** -/
theorem allows_iff_accepts {v : Json} {n : Nat} (hn : (v.height + 1) * most ≤ n) :
    m.Allows d n t v ↔ m.Accepts d t v := by
  constructor
  · exact fun h => ⟨n, fun n' hle => (allows_iff_of_le hends (hn.trans hle) hn).mpr h⟩
  · rintro ⟨enough, h⟩
    exact (allows_iff_of_le hends hn (hn.trans (Nat.le_max_left n enough))).mpr (h _ (Nat.le_max_right _ _))

end Meaning

end DecoderForge
