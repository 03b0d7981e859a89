import DecoderForge.Proofs.Standalone.Checks
import DecoderForge.Proofs.Validation.Meaning
import DecoderForge.Proofs.Validation.Verdicts

/-!
# DecoderForge — what checks demand of values

What a check demands of a value is said in terms of what the functions that it calls demand.  A piece of a body
means what keywords mean to the engine if its lines are a row of checks that demand the same.

## The architecture

* **`Check.Passes`** — whether a value passes a check, given the verdicts of functions.
* **`Reader`** — the engine's reading of schemas beside the numbers of functions and constants.
* **`Piece.Means`** — a piece whose lines are checks that a value passes where a condition holds; kept by every way of
  putting pieces together.
-/

namespace DecoderForge.Standalone

open Layout (Call)
open SchemaReading

/-! ## Checks -/

/-- Whether functions accept a value at a place. -/
abbrev Verdicts := (function : Nat) → (value : Json) → (path : String) → Prop

/-- A name that a pattern matches. -/
def Matches (pattern name : String) : Prop :=
  ∃ node, Pattern.read? pattern.toList = some node ∧ node.isFoundIn name = true

/-- A name that is neither known nor matches a pattern. -/
def IsOther (known patterns : List String) (name : String) : Prop := name ∉ known ∧ ∀ p ∈ patterns, ¬ Matches p name

/-- What is demanded of the property with a name.  Where a name is given twice, one property or all of them count. -/
def NamedPasses (all : Bool) (accepts : Json → String → Prop) (name : String) (w : Json) (path : String) : Prop :=
  ∀ members, w = .obj members →
    if all then ∀ m ∈ members, m.1 = name → accepts m.2 (Issue.below path name)
    else ∀ v, Json.Members.get? members name = some v → accepts v (Issue.below path name)

/-- What is demanded of a property in view of the others. -/
def Others.Passes (code : Verdicts) (patterns : List String) (m : String × Json) (path : String) : Others → Prop
  | .allowed => True
  | .forbidden _ known => ¬ IsOther known patterns m.1
  | .checked _ known f => IsOther known patterns m.1 → code f m.2 (Issue.below path m.1)

namespace Check

/-- Whether all properties are ruled by this check, even where names are given twice. -/
def isRuling : Check → Bool
  | .loop _ _ .allowed => false
  | .loop _ _ _ => true
  | _ => false

open Classical in
/-- Whether a value passes a check.  Where a draft does not know a keyword its check demands nothing. -/
def Passes (draft : Draft) (ruled : Bool) (code : Verdicts) (check : Check) (w : Json) (path : String) : Prop :=
  match check with
  | .enter _ | .leave | .measure | .dependents _ => True
  | .types names => (Assertion.type draft names).faults w = []
  | .enum _ values => ∃ vs, values = .arr vs ∧ (Assertion.enum vs).faults w = []
  | .const _ value => draft ≠ .draft4 → (Assertion.const value).faults w = []
  | .limit false exclusive n => (Assertion.atLeast n exclusive).faults w = []
  | .limit true exclusive n => (Assertion.atMost n exclusive).faults w = []
  | .multiple n => (Assertion.multipleOf n.toBinary64).faults w = []
  | .length false n => (Assertion.minLength n).faults w = []
  | .length true n => (Assertion.maxLength n).faults w = []
  | .pattern _ text =>
    ∃ node, Pattern.readPortable? text = some node ∧ (Assertion.pattern text node).faults w = []
  | .item i f => ∀ vs, w = .arr vs → ∀ v, vs[i]? = some v → code f v (Issue.belowIndex path i)
  | .itemsFrom start f =>
    ∀ vs, w = .arr vs → ∀ p ∈ vs.zipIdx.drop start, code f p.1 (Issue.belowIndex path p.2)
  | .count .items false n => (Assertion.minItems n).faults w = []
  | .count .items true n => (Assertion.maxItems n).faults w = []
  | .count .properties false n => (Assertion.minProperties n).faults w = []
  | .count .properties true n => (Assertion.maxProperties n).faults w = []
  | .contains f => draft ≠ .draft4 → ∀ vs, w = .arr vs → ∃ v ∈ vs, code f v path
  | .unique => Assertion.uniqueItems.faults w = []
  | .required name => ∀ members, w = .obj members → Json.Members.contains members name = true
  | .property name f => NamedPasses ruled (code f) name w path
  | .loop names patterns others => ∀ members, w = .obj members → ∀ m ∈ members,
    (∀ f ∈ names, draft ≠ .draft4 → code f (.str m.1) path)
      ∧ (∀ p ∈ patterns, Matches p.pattern m.1 → code p.function m.2 (Issue.below path m.1))
      ∧ others.Passes code (patterns.map PatternCheck.pattern) m path
  | .dependent other name => ∀ members, w = .obj members → Json.Members.contains members name = true →
    Json.Members.contains members other = true
  | .dependentSchema name f => ∀ members, w = .obj members → Json.Members.contains members name = true → code f w path
  | .all f => code f w path
  | .any fs => ∃ f ∈ fs, code f w path
  | .one fs => (fs.countP fun f => decide (code f w path)) = 1
  | .not f => ¬ code f w path
  | .choose c yes no => draft = .draft7 →
    (code c w path → ∀ f ∈ yes, code f w path) ∧ (¬ code c w path → ∀ f ∈ no, code f w path)

end Check

/-! ## Readers -/

/-- How schemas are read and references are followed, beside the constants and the verdicts of a module. -/
structure Reader where
  dialect : Dialect
  follow : Url → Constraint.Finder
  constants : List String
  code : Verdicts
  /-- The verdicts of functions that stand for references. -/
  referred : Verdicts

namespace Reader

/-- Whether a schema accepts a value at a place. -/
def Accepts (E : Reader) (u v : Json) (path : String) : Prop :=
  ∃ c, Meaning.read E.dialect u = .ok c ∧ c.issues E.follow v path = []

/-- A function that gives the verdicts of a schema. -/
structure Stands (E : Reader) (f : Nat) (u : Json) : Prop where
  readable : ∃ c, Meaning.read E.dialect u = .ok c
  verdict : ∀ v path, E.code f v path ↔ E.Accepts u v path

/-- A number that meets a demand of keywords. -/
def Meets (E : Reader) : Demand → Nat → Prop
  | .constant value, n => E.constants[n]? = some value
  | .function u _, n => E.Stands n u
  | .reference r, n => ∀ v path, E.referred n v path ↔ E.follow (Meaning.written r) v path = []
  | .fault _, _ => False

theorem accepts_iff {E : Reader} {u : Json} {c : Constraint} (hread : Meaning.read E.dialect u = .ok c) {v : Json}
    {path : String} : E.Accepts u v path ↔ c.issues E.follow v path = [] := by
  unfold Accepts
  rw [hread]
  simp

/-- A function that stands for a schema says what the reading of the schema says. -/
theorem Stands.issues_iff {E : Reader} {f : Nat} {u : Json} (h : E.Stands f u) {c : Constraint}
    (hread : Meaning.read E.dialect u = .ok c) {v : Json} {path : String} :
    E.code f v path ↔ c.issues E.follow v path = [] :=
  (h.verdict v path).trans (accepts_iff hread)

end Reader

/-! ## Pieces -/

/-- A row of checks that a value passes where a condition holds. -/
structure Reader.Row (E : Reader) (ruled : Bool) (checks : List Check) (rules : Bool) (P : Json → String → Prop) :
    Prop where
  fits : ∀ a ∈ checks, a.Fits E.constants
  rules : checks.any Check.isRuling = rules
  passes : ∀ w path, (∀ a ∈ checks, a.Passes E.dialect.draft ruled E.code w path) ↔ P w path

/-- A piece whose lines are checks that a value passes where a condition holds. -/
def Piece.Means (E : Reader) (ruled : Bool) (p : Piece) (rules : Bool) (P : Json → String → Prop) : Prop :=
  ∀ ns, List.Forall₂ E.Meets p.demands ns →
    ∃ checks : List Check, p.lines ns = checks.flatMap Check.calls ∧ E.Row ruled checks rules P

namespace Reader.Row

variable {E : Reader} {ruled rules rules' : Bool} {as bs : List Check} {P Q : Json → String → Prop}

theorem nil : E.Row ruled [] false fun _ _ => True where
  fits := by simp
  rules := rfl
  passes := by simp

theorem append (ha : E.Row ruled as rules P) (hb : E.Row ruled bs rules' Q) :
    E.Row ruled (as ++ bs) (rules || rules') fun w path => P w path ∧ Q w path where
  fits := List.forall_mem_append.mpr ⟨ha.fits, hb.fits⟩
  rules := by rw [List.any_append, ha.rules, hb.rules]
  passes w path := by rw [List.forall_mem_append, ha.passes, hb.passes]

theorem single {a : Check} (hfits : a.Fits E.constants)
    (hpasses : ∀ w path, a.Passes E.dialect.draft ruled E.code w path ↔ P w path) : E.Row ruled [a] a.isRuling P where
  fits := by simpa using hfits
  rules := by simp
  passes w path := by rw [List.forall_mem_singleton, hpasses]

theorem congr (h : E.Row ruled as rules P) (hPQ : ∀ w path, P w path ↔ Q w path) : E.Row ruled as rules Q :=
  { h with passes := fun w path => (h.passes w path).trans (hPQ w path) }

end Reader.Row

namespace Piece

variable {E : Reader} {ruled rules rules' : Bool} {p q : Piece} {P Q : Json → String → Prop}

theorem Means.congr (h : p.Means E ruled rules P) (hPQ : ∀ w path, P w path ↔ Q w path) : p.Means E ruled rules Q := by
  intro ns hns
  obtain ⟨checks, hlines, hrow⟩ := h ns hns
  exact ⟨checks, hlines, hrow.congr hPQ⟩

theorem means_empty : empty.Means E ruled false fun _ _ => True := fun _ _ => ⟨[], rfl, .nil⟩

theorem means_concat_nil : (concat []).Means E ruled false fun _ _ => True := means_empty

/-- Nothing meets the demand of a fault. -/
theorem means_ofFault (f : Fault) : (ofFault f).Means E ruled rules P := by
  intro ns hns
  cases hns with
  | cons hfault _ => exact hfault.elim

theorem means_ofCalls {calls : List Call} (checks : List Check) (hcalls : calls = checks.flatMap Check.calls)
    (hrow : E.Row ruled checks rules P) : (ofCalls calls).Means E ruled rules P := fun _ _ => ⟨checks, hcalls, hrow⟩

theorem means_ask {d : Demand} {lines : Nat → List Call} (check : Nat → Check)
    (hlines : ∀ n, lines n = (check n).calls) (hrules : ∀ n, (check n).isRuling = false)
    (hfits : ∀ n, E.Meets d n → (check n).Fits E.constants)
    (hpasses : ∀ n, E.Meets d n → ∀ w path,
      (check n).Passes E.dialect.draft ruled E.code w path ↔ P w path) : (ask d lines).Means E ruled false P := by
  intro ns hns
  cases hns with
  | @cons _ n _ rest hmet hrest =>
      cases hrest
      refine ⟨[check n], ?_, hrules n ▸ Reader.Row.single (hfits n hmet) (hpasses n hmet)⟩
      show lines n = _
      rw [hlines, List.flatMap_singleton]

theorem means_ite {c : Prop} [Decidable c] (hp : c → p.Means E ruled rules P) (hq : ¬ c → q.Means E ruled rules P) :
    (if c then p else q).Means E ruled rules P := by
  split
  · next hc => exact hp hc
  · next hc => exact hq hc

theorem Means.append (hp : p.Means E ruled rules P) (hq : q.Means E ruled rules' Q) :
    (p.append q).Means E ruled (rules || rules') fun w path => P w path ∧ Q w path := by
  intro ns hns
  obtain ⟨as, hlines, ha⟩ := hp _ (List.forall₂_take_append ns p.demands q.demands hns.flip).flip
  obtain ⟨bs, hlines', hb⟩ := hq _ (List.forall₂_drop_append ns p.demands q.demands hns.flip).flip
  refine ⟨as ++ bs, ?_, ha.append hb⟩
  show p.lines _ ++ q.lines _ = _
  rw [hlines, hlines', List.flatMap_append]

theorem Means.concat_cons {ps : List Piece} (hp : p.Means E ruled rules P)
    (hps : (concat ps).Means E ruled rules' Q) :
    (concat (p :: ps)).Means E ruled (rules || rules') fun w path => P w path ∧ Q w path := hp.append hps

/-- Pieces made one by one. -/
theorem means_concat_map {α : Type} {make : α → Piece} {P : α → Json → String → Prop} : ∀ {l : List α},
    (∀ a ∈ l, (make a).Means E ruled false (P a)) →
      (concat (l.map make)).Means E ruled false fun w path => ∀ a ∈ l, P a w path
  | [], _ => means_empty.congr fun _ _ => by simp
  | a :: rest, h => by
      obtain ⟨ha, hrest⟩ := List.forall_mem_cons.mp h
      exact (ha.concat_cons (means_concat_map hrest)).congr fun w path => by rw [List.forall_mem_cons]

/-- Lines in a group mean what they mean. -/
theorem Means.wrap (guard : Guard) (hp : p.Means E ruled rules P) :
    (Piece.wrap guard.head "\x7d" p).Means E ruled rules P := by
  intro ns hns
  obtain ⟨checks, hlines, hrow⟩ := hp ns hns
  cases hcalls : p.lines ns with
  | nil => exact ⟨checks, by rw [← hlines, hcalls]; simp [Piece.wrap, hcalls], hrow⟩
  | cons c rest =>
      have henter : E.Row ruled [.enter guard] false fun _ _ => True := .single trivial fun _ _ => Iff.rfl
      have hleave : E.Row ruled [.leave] false fun _ _ => True := .single trivial fun _ _ => Iff.rfl
      have hgroup := (henter.append hrow).append hleave
      rw [Bool.false_or, Bool.or_false] at hgroup
      refine ⟨[.enter guard] ++ checks ++ [.leave], ?_, hgroup.congr fun w path => by simp⟩
      simp [Piece.wrap, hcalls, ← hlines, Check.calls, closes]

/-- A step that may fail before the piece is made. -/
theorem means_bind {α : Type} {e : Except Fault α} {make : α → Except Fault Piece}
    (h : ∀ a, e = .ok a → (ofExcept (make a)).Means E ruled rules P) :
    (ofExcept (e >>= make)).Means E ruled rules P := by
  cases e with
  | ok a => exact h a rfl
  | error f => exact means_ofFault f

end Piece

end DecoderForge.Standalone
