import DecoderForge.Proofs.Standalone.Demands
import DecoderForge.Standalone.Module

/-!
# DecoderForge — linking depends on what is reached

A validator module is linked from the target of its reference and the targets of the references reached
from there.  Two documents in which these are the same give the same module, however much else they hold:
the number of references that a document has bounds the linking and does not show in its result.

## The architecture

* **`SameBelow`** — two documents agree on a set of references that is closed under following.
* **`Linkage.missing`** — references of the set that still lack a function; the bound stays above it.
* **`linkReference_same`** — the step from reference to reference, by induction on the bound.
* **`source_eq_of_sameBelow`** — the modules are the same.
-/

namespace DecoderForge.Standalone

/-- Two documents that give the same targets to some references, where every reference inside a target
is again one of them. -/
structure SameBelow (refs : List String) (root root' : Json) : Prop where
  same : ∀ r ∈ refs, resolveLocal? root r = resolveLocal? root' r
  closed : ∀ r ∈ refs, ∀ target, resolveLocal? root r = some target → target.references ⊆ refs

/-! ## The bound -/

/-- How many of some references have no function yet. -/
def Linkage.missing (refs : List String) (l : Linkage) : Nat :=
  refs.countP fun r => (l.references.lookup r).isNone

/-- A reference that gets its function is missing no more. -/
theorem Linkage.missing_cons_lt {refs : List String} {l : Linkage} {r : String} (n : Nat)
    (hmem : r ∈ refs) (h : l.references.lookup r = none) :
    ({ l with references := (r, n) :: l.references } : Linkage).missing refs < l.missing refs := by
  have hnone : ∀ s, (((r, n) :: l.references).lookup s).isNone
      = (!(s == r) && (l.references.lookup s).isNone) := by
    intro s
    rw [List.lookup_cons]
    cases s == r <;> rfl
  unfold missing
  simp only [hnone]
  induction refs with
  | nil => exact absurd hmem (by simp)
  | cons x rest ih =>
      -- no reference is missing afterwards that was not missing before
      have hle : rest.countP (fun s => !(s == r) && (l.references.lookup s).isNone)
          ≤ rest.countP fun s => (l.references.lookup s).isNone :=
        List.countP_mono_left fun s _ hs => (Bool.and_eq_true _ _ ▸ hs).2
      rw [List.countP_cons, List.countP_cons]
      by_cases hx : x = r
      · subst hx
        simp only [beq_self_eq_true, h, Option.isNone_none, Bool.not_true, Bool.false_and]
        simp only [Bool.false_eq_true, if_false, if_true]
        omega
      · have hrest := ih ((List.mem_cons.mp hmem).resolve_left fun heq => hx heq.symm)
        have hbeq : (x == r) = false := by simpa using hx
        simp only [hbeq, Bool.not_false, Bool.true_and]
        omega

/-- Both bounds still exceed what is missing. -/
def Enough (refs : List String) (n n' : Nat) (l : Linkage) : Prop :=
  l.missing refs ≤ n ∧ l.missing refs ≤ n'

/-- What is missing depends on the references that have functions only. -/
theorem Enough.of_references {refs : List String} {n n' : Nat} {l l' : Linkage}
    (h : Enough refs n n' l) (heq : l'.references = l.references) : Enough refs n n' l' := by
  unfold Enough Linkage.missing at *
  rwa [heq]

/-! ## Steps with the same result -/

/-- Two steps with the same result, after which the bounds still hold. -/
def SameStep {α : Type} (P : Linkage → Prop) (x y : Linked α) : Prop :=
  x = y ∧ ∀ a l, x = .ok (a, l) → P l

section Steps

variable {P Q : Linkage → Prop}

theorem SameStep.error {α : Type} (f : Fault) : SameStep P (.error f : Linked α) (.error f) :=
  ⟨rfl, fun _ _ h => absurd h (by simp)⟩

theorem SameStep.ok {α : Type} {a : α} {l : Linkage} (h : P l) :
    SameStep P (.ok (a, l) : Linked α) (.ok (a, l)) := by
  refine ⟨rfl, fun b l' heq => ?_⟩
  obtain ⟨rfl, rfl⟩ := Prod.mk.inj (Except.ok.inj heq)
  exact h

theorem SameStep.mono {α : Type} {x y : Linked α} (h : SameStep P x y) (hPQ : ∀ l, P l → Q l) :
    SameStep Q x y :=
  ⟨h.1, fun a l heq => hPQ l (h.2 a l heq)⟩

theorem SameStep.bind {α β : Type} {x y : Except Fault (α × Linkage)}
    {f g : α × Linkage → Except Fault (β × Linkage)}
    (hxy : SameStep P x y) (hfg : ∀ a l, P l → SameStep P (f (a, l)) (g (a, l))) :
    SameStep P (Except.bind x f) (Except.bind y g) := by
  obtain ⟨rfl, hP⟩ := hxy
  cases x with
  | error e => exact SameStep.error e
  | ok r => exact hfg r.1 r.2 (hP r.1 r.2 rfl)

/-- Demands that are met alike one by one are met alike in a row. -/
theorem meetAll_same {meet meet' : Demand → Linkage → Linked Nat} :
    ∀ {ds : List Demand}, (∀ d ∈ ds, ∀ l, P l → SameStep P (meet d l) (meet' d l)) →
      ∀ l, P l → SameStep P (meetAll meet ds l) (meetAll meet' ds l)
  | [], _, _, hl => SameStep.ok hl
  | d :: _, h, l, hl =>
      SameStep.bind (h d List.mem_cons_self l hl) fun _ l₁ h₁ =>
        SameStep.bind (meetAll_same (fun e he => h e (List.mem_cons_of_mem d he)) l₁ h₁)
          fun _ _ h₂ => SameStep.ok h₂

end Steps

/-! ## Parts and references -/

section Linking

variable {validateFormats : Bool} {refs : List String} {n n' : Nat}

/-- Writing a function leaves the references as the demands of its body leave them. -/
theorem writeFunction_same {meet meet' : Demand → Linkage → Linked Nat} {number : Nat}
    {schema : Json} {location : String}
    (h : ∀ d, d.IsPartOf schema → ∀ l, Enough refs n n' l →
      SameStep (Enough refs n n') (meet d l) (meet' d l))
    {l : Linkage} (hl : Enough refs n n' l) :
    SameStep (Enough refs n n')
      (writeFunction validateFormats meet number schema location l)
      (writeFunction validateFormats meet' number schema location l) := by
  have hdemands : SameStep (Enough refs n n')
      (meetAll meet (body validateFormats schema location).demands l)
      (meetAll meet' (body validateFormats schema location).demands l) := meetAll_same
    (fun d hd => h d (body_within validateFormats schema location d hd)) l hl
  exact SameStep.bind hdemands fun _ l₁ h₁ => SameStep.ok (h₁.of_references rfl)

/-- Demands of a schema are met alike when its parts and the references of the set are. -/
theorem meetDemand_same {function function' : Json → String → Linkage → Linked Nat}
    {reference reference' : String → Linkage → Linked Nat} {schema : Json}
    (hschema : schema.references ⊆ refs)
    (hfunction : ∀ sub location l, sub.references ⊆ refs → Enough refs n n' l →
      SameStep (Enough refs n n') (function sub location l) (function' sub location l))
    (hreference : ∀ r ∈ refs, ∀ l, Enough refs n n' l →
      SameStep (Enough refs n n') (reference r l) (reference' r l))
    {d : Demand} (hd : d.IsPartOf schema) {l : Linkage} (hl : Enough refs n n' l) :
    SameStep (Enough refs n n') (meetDemand function reference d l)
      (meetDemand function' reference' d l) := by
  cases d with
  | constant value => exact SameStep.ok (hl.of_references rfl)
  | function sub location =>
      exact hfunction sub location l (List.Subset.trans (Json.Inside.references_subset hd) hschema) hl
  | reference r => exact hreference r (hschema hd) l hl
  | fault f => exact SameStep.error f

/-- Parts of a schema are linked alike when references are, by induction on the height that is left. -/
theorem linkPart_same {reference reference' : String → Linkage → Linked Nat}
    (hreference : ∀ r ∈ refs, ∀ l, Enough refs n n' l →
      SameStep (Enough refs n n') (reference r l) (reference' r l)) :
    ∀ (height : Nat) (schema : Json) (location : String) (l : Linkage),
      schema.references ⊆ refs → Enough refs n n' l →
        SameStep (Enough refs n n') (linkPart validateFormats reference height schema location l)
          (linkPart validateFormats reference' height schema location l)
  | 0, _, _, _, hschema, hl =>
      writeFunction_same
        (fun _ hd _ hl₁ => meetDemand_same hschema (fun _ _ _ _ _ => SameStep.error _) hreference hd hl₁)
        (hl.of_references rfl)
  | height + 1, _, _, _, hschema, hl =>
      writeFunction_same
        (fun _ hd _ hl₁ => meetDemand_same hschema
          (fun sub location l h h' => linkPart_same hreference height sub location l h h')
          hreference hd hl₁)
        (hl.of_references rfl)

end Linking

/-- **References are linked alike in two documents that agree on all that is reached**, as long as the
bounds exceed what is missing.  The induction is on the first bound; each step down gives one missing
reference its function. -/
theorem linkReference_same {validateFormats : Bool} {refs : List String} {root root' : Json}
    (hsame : SameBelow refs root root') :
    ∀ (n n' : Nat) (r : String) (l : Linkage), r ∈ refs → Enough refs n n' l →
      SameStep (Enough refs n n') (linkReference root validateFormats n r l)
        (linkReference root' validateFormats n' r l) := by
  intro n
  induction n with
  | zero =>
      intro n' r l hr hl
      unfold linkReference
      cases hlookup : l.references.lookup r with
      | some k => exact SameStep.ok hl
      | none =>
          have hlt := Linkage.missing_cons_lt 0 hr hlookup
          exact absurd hl.1 (by omega)
  | succ n ih =>
      intro n' r l hr hl
      unfold linkReference
      cases hlookup : l.references.lookup r with
      | some k => exact SameStep.ok hl
      | none =>
          have hlt := Linkage.missing_cons_lt l.functions.length hr hlookup
          cases n' with
          | zero => exact absurd hl.2 (by omega)
          | succ n' =>
              simp only [← hsame.same r hr]
              cases htarget : resolveLocal? root r with
              | none => exact SameStep.error _
              | some target =>
                  have hrefs := hsame.closed r hr target htarget
                  have hreserved : Enough refs n n'
                      { l.reserve.2 with references := (r, l.reserve.1) :: l.reserve.2.references } := by
                    have henough : Enough refs n n'
                        { l with references := (r, l.functions.length) :: l.references } :=
                      ⟨Nat.le_of_lt_succ (Nat.lt_of_lt_of_le hlt hl.1),
                        Nat.le_of_lt_succ (Nat.lt_of_lt_of_le hlt hl.2)⟩
                    exact henough.of_references rfl
                  have hreference : ∀ r ∈ refs, ∀ l, Enough refs n n' l →
                      SameStep (Enough refs n n') (linkReference root validateFormats n r l)
                        (linkReference root' validateFormats n' r l) :=
                    fun r hr l hl => ih n' r l hr hl
                  refine (writeFunction_same (fun _ hd _ hl₁ => meetDemand_same hrefs
                    (fun sub location l h h' => linkPart_same hreference target.height sub location l h h')
                    hreference hd hl₁) hreserved).mono fun l' h => ?_
                  exact ⟨Nat.le_succ_of_le h.1, Nat.le_succ_of_le h.2⟩

/-- **The module of a definition is the same in two documents that agree on all that is reached.** -/
theorem source_eq_of_sameBelow {refs : List String} {root root' : Json}
    (hsame : SameBelow refs root root') {pointer : String} (hpointer : pointer ∈ refs)
    (hlength : refs.length ≤ root.references.length + 1)
    (hlength' : refs.length ≤ root'.references.length + 1) (validateFormats : Bool) :
    source root validateFormats pointer = source root' validateFormats pointer := by
  have hmissing : ({} : Linkage).missing refs ≤ refs.length := List.countP_le_length
  have henough : Enough refs (root.references.length + 1) (root'.references.length + 1) {} :=
    ⟨by omega, by omega⟩
  have hlink : link root validateFormats pointer = link root' validateFormats pointer :=
    (linkReference_same hsame _ _ pointer {} hpointer henough).1
  unfold source
  rw [hlink]

end DecoderForge.Standalone
