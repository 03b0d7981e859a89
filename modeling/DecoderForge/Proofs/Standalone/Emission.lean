import DecoderForge.Proofs.Standalone.Acceptable
import DecoderForge.Proofs.Standalone.Agreement
import DecoderForge.Proofs.Standalone.Linked
import Mathlib.Logic.Relation

/-!
# DecoderForge — which schemas have a validator module

A module can be made for the definition under a pointer exactly when the pointer leads somewhere and every
schema that is visited from there is acceptable by itself.  Which schemas are visited is read off the document:
neither the order of traversal nor the functions that are already known play a part.

## The architecture

* **`Visited`**, **`Acceptable`** — the schemas that count, and what is asked of each.
* **`Settled`** — a schema whose parts all have a body, with references that are known; what linking
  establishes for the target of every reference that it follows (**`Links.sound`**).
* **`Ready`** — a schema from which only acceptable ones are visited; what linking needs
  (**`linkReference_succeeds`**).
* **`source_succeeds_iff`** — both directions together.
-/

namespace DecoderForge.Standalone

/-- The schemas visited from a schema: its own, the target of a reference that is visited, and the schemas
that the keywords of a visited schema apply. -/
inductive Visited (root start : Json) : Json → Prop where
  | start : Visited root start start
  | target {schema : Json} {r : String} {target : Json} (h : Visited root start schema)
      (hr : RefersTo schema r) (htarget : resolveLocal? root r = some target) : Visited root start target
  | part {schema sub : Json} (h : Visited root start schema) (hpart : HasPart schema sub) :
      Visited root start sub

/-- A schema that has a body of its own, and a target if it is a reference. -/
def Acceptable (root : Json) (validateFormats : Bool) (schema : Json) : Prop :=
  HasBody validateFormats schema ∧ ∀ r, RefersTo schema r → ∃ target, resolveLocal? root r = some target

section Visiting

variable {root : Json} {validateFormats : Bool}

theorem Visited.trans {a b c : Json} (hab : Visited root a b) (hbc : Visited root b c) : Visited root a c := by
  induction hbc with
  | start => exact hab
  | target _ hr htarget ih => exact .target ih hr htarget
  | part _ hpart ih => exact .part ih hpart

/-- A reference has no parts. -/
theorem not_hasPart_of_refersTo {schema sub : Json} {r : String} (h : RefersTo schema r) :
    ¬ HasPart schema sub := by
  rintro ⟨members, rfl, hnone, -⟩
  exact absurd (hnone.symm.trans h) (by simp)

/-- Flags have no parts, and always a body. -/
theorem not_hasPart_of_isFlag {schema sub : Json} (h : isFlag schema = true) : ¬ HasPart schema sub := by
  rintro ⟨members, rfl, -⟩
  exact absurd h (by simp [isFlag])

theorem hasBody_of_isFlag {schema : Json} (h : isFlag schema = true) : HasBody validateFormats schema := by
  cases schema with
  | bool b => exact trivial
  | null | num _ | str _ | arr _ | obj _ => exact absurd h (by simp [isFlag])

theorem not_refersTo_of_isFlag {schema : Json} {r : String} (h : isFlag schema = true) : ¬ RefersTo schema r := by
  cases schema with
  | bool b => simp [RefersTo, Json.get?]
  | null | num _ | str _ | arr _ | obj _ => exact absurd h (by simp [isFlag])

theorem hasBody_of_refersTo {schema : Json} {r : String} (h : RefersTo schema r) :
    HasBody validateFormats schema := by
  cases schema with
  | obj members =>
      have h : Json.Members.get? members "$ref" = some (.str r) := h
      simp [HasBody, h]
  | null | bool _ | num _ | str _ | arr _ => exact absurd h (by simp [RefersTo, Json.get?])

/-! ## Linking that succeeds visits acceptable schemas only -/

namespace Linkage

/-- A reference has a function, which may still be in the making. -/
def Knows (l : Linkage) (r : String) : Prop := (l.references.lookup r).isSome = true

theorem knows_follow_iff {l : Linkage} {r s : String} : (l.follow r).Knows s ↔ s = r ∨ l.Knows s := by
  unfold Knows follow
  rw [List.lookup_cons]
  cases heq : s == r with
  | true => simpa using Or.inl (beq_iff_eq.mp heq)
  | false => simp [beq_eq_false_iff_ne.mp heq]

end Linkage

/-- A schema that has a body, as have its parts all the way down, where all references are known. -/
def Settled (validateFormats : Bool) (l : Linkage) (schema : Json) : Prop :=
  ∀ sub, Relation.ReflTransGen HasPart schema sub →
    HasBody validateFormats sub ∧ ∀ r, RefersTo sub r → l.Knows r

/-- What it takes to have met a demand. -/
def Met (validateFormats : Bool) (l : Linkage) : Demand → Prop
  | .constant _ => True
  | .function schema _ => Settled validateFormats l schema
  | .reference r => l.Knows r
  | .fault _ => False

theorem Settled.mono {l l' : Linkage} {schema : Json} (h : Settled validateFormats l schema)
    (hknows : ∀ r, l.Knows r → l'.Knows r) : Settled validateFormats l' schema :=
  fun sub hsub => ⟨(h sub hsub).1, fun r hr => hknows r ((h sub hsub).2 r hr)⟩

theorem Met.mono {l l' : Linkage} {d : Demand} (h : Met validateFormats l d)
    (hknows : ∀ r, l.Knows r → l'.Knows r) : Met validateFormats l' d := by
  cases d with
  | constant value => exact trivial
  | function schema location => exact Settled.mono h hknows
  | reference r => exact hknows r h
  | fault f => exact h.elim

/-- A flag is settled from the start, so that nobody needs to ask for it. -/
theorem settled_of_isFlag {l : Linkage} {schema : Json} (h : isFlag schema = true) :
    Settled validateFormats l schema := by
  intro sub hsub
  rcases hsub.cases_head with rfl | ⟨part, hpart, -⟩
  · exact ⟨hasBody_of_isFlag h, fun r hr => absurd hr (not_refersTo_of_isFlag h)⟩
  · exact absurd hpart (not_hasPart_of_isFlag h)

/-- **A schema whose body has all that it demands is settled.** -/
theorem settled_of_met {l : Linkage} {schema : Json} {location : String}
    (h : ∀ d ∈ (body validateFormats schema location).demands, Met validateFormats l d) :
    Settled validateFormats l schema := by
  intro sub hsub
  by_cases href : ∃ r, RefersTo schema r
  · -- a reference demands its target, and has no parts
    obtain ⟨r, hr⟩ := href
    rw [demands_of_refersTo validateFormats hr location] at h
    rcases hsub.cases_head with rfl | ⟨part, hpart, -⟩
    · refine ⟨hasBody_of_refersTo hr, fun s hs => ?_⟩
      obtain rfl : r = s := Json.str.inj (Option.some.inj (Eq.trans (Eq.symm hr) hs))
      exact h (.reference r) List.mem_cons_self
    · exact absurd hpart (not_hasPart_of_refersTo hr)
  · have hcovers := body_covers validateFormats (fun r hr => href ⟨r, hr⟩) location
    have hbody := hcovers.made_iff.mp fun f hf => h _ hf
    rcases hsub.cases_head with rfl | ⟨part, hpart, hsub⟩
    · exact ⟨hbody, fun r hr => absurd ⟨r, hr⟩ href⟩
    · rcases hcovers.asked hbody hpart with hflag | ⟨at', hasked⟩
      · exact settled_of_isFlag hflag sub hsub
      · exact h _ hasked sub hsub

/-- What meeting some demands does: no reference is forgotten, each demand is met, and the target of each
reference that is new is settled. -/
structure Sound (root : Json) (validateFormats : Bool) (ds : List Demand) (l l' : Linkage) : Prop where
  kept : ∀ r, l.Knows r → l'.Knows r
  met : ∀ d ∈ ds, Met validateFormats l' d
  new : ∀ r, l'.Knows r → l.Knows r
    ∨ ∃ target, resolveLocal? root r = some target ∧ Settled validateFormats l' target

/-- The first of some demands, met on the way. -/
theorem Sound.cons {d : Demand} {rest : List Demand} {l l₁ l' : Linkage}
    (hkept : ∀ r, l.Knows r → l₁.Knows r) (hmet : Met validateFormats l₁ d)
    (hnew : ∀ r, l₁.Knows r → l.Knows r
      ∨ ∃ target, resolveLocal? root r = some target ∧ Settled validateFormats l₁ target)
    (hrest : Sound root validateFormats rest l₁ l') : Sound root validateFormats (d :: rest) l l' where
  kept r hr := hrest.kept r (hkept r hr)
  met e he := by
    rcases List.mem_cons.mp he with rfl | he
    · exact hmet.mono hrest.kept
    · exact hrest.met e he
  new r hr := by
    rcases hrest.new r hr with h | h
    · exact (hnew r h).imp_right fun ⟨target, htarget, hsettled⟩ => ⟨target, htarget, hsettled.mono hrest.kept⟩
    · exact Or.inr h

/-- What some demands do depends on the references of the module before only. -/
theorem Sound.of_references {ds : List Demand} {l l₁ l' : Linkage} (h : Sound root validateFormats ds l₁ l')
    (heq : l₁.references = l.references) : Sound root validateFormats ds l l' := by
  have hknows (r : String) : l₁.Knows r ↔ l.Knows r := by
    unfold Linkage.Knows
    rw [heq]
  exact ⟨fun r hr => h.kept r ((hknows r).mpr hr), h.met, fun r hr => (h.new r hr).imp_left (hknows r).mp⟩

/-- **Linking settles what it follows**, by induction on what it does. -/
theorem Links.sound {ds : List Demand} {l l' : Linkage} {ns : List Nat}
    (h : Links root validateFormats ds l ns l') : Sound root validateFormats ds l l' := by
  induction h with
  | nil l => exact ⟨fun _ => id, by simp, fun _ => Or.inl⟩
  | constant _ ih => exact Sound.cons (fun _ => id) trivial (fun _ => Or.inl) (ih.of_references rfl)
  | function _ _ ihbody ihrest =>
      exact Sound.cons ihbody.kept (settled_of_met ihbody.met) ihbody.new (ihrest.of_references rfl)
  | @known r n rest l l' ns hlookup _ ih =>
      have hknown : l.Knows r := by
        unfold Linkage.Knows
        rw [hlookup]
        rfl
      exact Sound.cons (fun _ => id) hknown (fun _ => Or.inl) ih
  | @followed r target rest l l₁ l' ms ns _ htarget _ _ ihbody ihrest =>
      have hkept (s : String) (hs : l.Knows s) : l₁.Knows s :=
        ihbody.kept s (Linkage.knows_follow_iff.mpr (Or.inr hs))
      have hknown : l₁.Knows r := ihbody.kept r (Linkage.knows_follow_iff.mpr (Or.inl rfl))
      refine Sound.cons hkept hknown (fun s hs => ?_) (ihrest.of_references rfl)
      rcases ihbody.new s hs with hknown | hsettled
      · -- the reference itself is settled by the function just written
        rcases Linkage.knows_follow_iff.mp hknown with rfl | hknown
        · exact Or.inr ⟨target, htarget, settled_of_met ihbody.met⟩
        · exact Or.inl hknown
      · exact Or.inr hsettled

/-- When all known references are settled, so is whatever is visited from one. -/
theorem Settled.of_visited {l : Linkage} {start schema : Json}
    (hall : ∀ r, l.Knows r → ∃ target, resolveLocal? root r = some target ∧ Settled validateFormats l target)
    (hstart : Settled validateFormats l start) (h : Visited root start schema) :
    Settled validateFormats l schema := by
  induction h with
  | start => exact hstart
  | target _ hr htarget ih =>
      obtain ⟨target, htarget', hsettled⟩ := hall _ ((ih _ .refl).2 _ hr)
      obtain rfl := Option.some.inj (htarget.symm.trans htarget')
      exact hsettled
  | part _ hpart ih => exact fun sub hsub => ih sub (.head hpart hsub)

/-! ## Linking succeeds where only acceptable schemas are visited -/

/-- A schema from which only acceptable schemas are visited. -/
def Ready (root : Json) (validateFormats : Bool) (schema : Json) : Prop :=
  ∀ sub, Visited root schema sub → Acceptable root validateFormats sub

theorem Ready.of_visited {schema sub : Json} (h : Ready root validateFormats schema)
    (hsub : Visited root schema sub) : Ready root validateFormats sub :=
  fun _ hvisited => h _ (hsub.trans hvisited)

/-- A step that succeeds, after which the bound still holds. -/
def Succeeds {α : Type} (P : Linkage → Prop) (x : Except Fault (α × Linkage)) : Prop :=
  ∃ a l, x = .ok (a, l) ∧ P l

theorem Succeeds.bind {α β : Type} {P Q : Linkage → Prop} {x : Except Fault (α × Linkage)}
    {f : α × Linkage → Except Fault (β × Linkage)} (hx : Succeeds P x)
    (hf : ∀ a l, P l → Succeeds Q (f (a, l))) : Succeeds Q (Except.bind x f) := by
  obtain ⟨a, l, rfl, hl⟩ := hx
  exact hf a l hl

/-- Demands that can be met one by one can be met in a row. -/
theorem meetAll_succeeds {P : Linkage → Prop} {meet : Demand → Linkage → Linked Nat} :
    ∀ {ds : List Demand}, (∀ d ∈ ds, ∀ l, P l → Succeeds P (meet d l)) →
      ∀ l, P l → Succeeds P (meetAll meet ds l)
  | [], _, l, hl => ⟨[], l, rfl, hl⟩
  | d :: _, h, l, hl =>
      Succeeds.bind (h d List.mem_cons_self l hl) fun _ l₁ h₁ =>
        Succeeds.bind (meetAll_succeeds (fun e he => h e (List.mem_cons_of_mem d he)) l₁ h₁)
          fun _ l₂ h₂ => ⟨_, l₂, rfl, h₂⟩

/-- A schema that is ready, with all its references among those that count. -/
structure Within (root : Json) (validateFormats : Bool) (refs : List String) (schema : Json) : Prop where
  ready : Ready root validateFormats schema
  references : schema.references ⊆ refs

/-- What the body of such a schema demands: never a fault, and the rest is again such. -/
theorem Within.demands {refs : List String} {schema : Json} {location : String}
    (h : Within root validateFormats refs schema) {d : Demand}
    (hd : d ∈ (body validateFormats schema location).demands) :
    match d with
    | .constant _ => True
    | .function sub _ => Within root validateFormats refs sub ∧ sub.height < schema.height
    | .reference r => r ∈ refs ∧ ∃ target, resolveLocal? root r = some target ∧ Ready root validateFormats target
    | .fault _ => False := by
  have hpart := body_within validateFormats schema location d hd
  obtain ⟨hbody, htarget⟩ := h.ready schema .start
  by_cases href : ∃ r, RefersTo schema r
  · obtain ⟨r, hr⟩ := href
    rw [demands_of_refersTo validateFormats hr location, List.mem_singleton] at hd
    subst hd
    obtain ⟨target, htarget⟩ := htarget r hr
    exact ⟨h.references hpart, target, htarget, h.ready.of_visited (.target .start hr htarget)⟩
  · have hcovers := body_covers validateFormats (fun r hr => href ⟨r, hr⟩) location
    cases d with
    | constant value => exact trivial
    | function sub at' =>
        have hsub := hcovers.asks hbody hd
        exact ⟨⟨h.ready.of_visited (.part .start hsub),
          List.Subset.trans (Json.Inside.references_subset hpart) h.references⟩, Json.Inside.height_lt hpart⟩
    | reference r => exact absurd hd (hcovers.noReference r)
    | fault f => exact absurd hd (hcovers.made_iff.mpr hbody f)

/-- What is asked of the linking of references: it succeeds for those that count and lead to schemas that are
ready, as long as no more than `n` lack a function. -/
def LinksReady (root : Json) (validateFormats : Bool) (refs : List String) (n : Nat)
    (reference : String → Linkage → Linked Nat) : Prop :=
  ∀ {r l}, r ∈ refs → (∃ target, resolveLocal? root r = some target ∧ Ready root validateFormats target) →
    l.missing refs ≤ n → Succeeds (fun l => l.missing refs ≤ n) (reference r l)

/-- What is missing depends on the references only. -/
theorem Linkage.missing_congr {refs : List String} {l l' : Linkage} (h : l'.references = l.references) :
    l'.missing refs = l.missing refs := by
  unfold missing
  rw [h]

/-- A function whose demands can be met can be written. -/
theorem writeFunction_succeeds {refs : List String} {n number : Nat} {meet : Demand → Linkage → Linked Nat}
    {schema : Json} {location : String} {l : Linkage}
    (h : ∀ d ∈ (body validateFormats schema location).demands, ∀ l, l.missing refs ≤ n →
      Succeeds (fun l => l.missing refs ≤ n) (meet d l)) (hl : l.missing refs ≤ n) :
    Succeeds (fun l => l.missing refs ≤ n) (writeFunction validateFormats meet number schema location l) :=
  Succeeds.bind (meetAll_succeeds h l hl) fun _ _ h₁ => ⟨_, _, rfl, h₁⟩

/-- The demands of a schema that is ready can be met when its parts and its references can be linked. -/
theorem meetDemand_succeeds {refs : List String} {n : Nat} {function : Json → String → Linkage → Linked Nat}
    {reference : String → Linkage → Linked Nat} {schema : Json} {location : String}
    (hschema : Within root validateFormats refs schema)
    (hreference : LinksReady root validateFormats refs n reference)
    (hfunction : ∀ sub location l, Within root validateFormats refs sub → sub.height < schema.height →
      l.missing refs ≤ n → Succeeds (fun l => l.missing refs ≤ n) (function sub location l))
    {d : Demand} (hd : d ∈ (body validateFormats schema location).demands) {l : Linkage} (hl : l.missing refs ≤ n) :
    Succeeds (fun l => l.missing refs ≤ n) (meetDemand function reference d l) := by
  have hdemand := hschema.demands hd
  cases d with
  | constant value => exact ⟨_, _, rfl, hl⟩
  | function sub at' => exact hfunction sub at' l hdemand.1 hdemand.2 hl
  | reference r => exact hreference hdemand.1 hdemand.2 hl
  | fault f => exact hdemand.elim

/-- Parts of a schema, by induction on the height that is left. -/
theorem linkPart_succeeds {refs : List String} {n : Nat} {reference : String → Linkage → Linked Nat}
    (hreference : LinksReady root validateFormats refs n reference) :
    ∀ (height : Nat) (schema : Json) (location : String) (l : Linkage), schema.height ≤ height →
      Within root validateFormats refs schema → l.missing refs ≤ n →
        Succeeds (fun l => l.missing refs ≤ n) (linkPart validateFormats reference height schema location l)
  | 0, _, _, _, hheight, hschema, hl => by
      refine writeFunction_succeeds (fun _ hd _ hl => ?_) hl
      -- at the bottom there is no part to go down to
      exact meetDemand_succeeds hschema hreference (fun sub _ _ _ hlt _ => by omega) hd hl
  | height + 1, _, _, _, hheight, hschema, hl => by
      refine writeFunction_succeeds (fun _ hd _ hl => ?_) hl
      exact meetDemand_succeeds hschema hreference
        (fun sub location l hsub hlt hl => linkPart_succeeds hreference height sub location l (by omega) hsub hl) hd hl

/-- **References that lead to schemas that are ready**, by induction on the bound.  Each step down gives one
missing reference its function. -/
theorem linkReference_succeeds {refs : List String}
    (hclosed : ∀ r ∈ refs, ∀ target, resolveLocal? root r = some target → target.references ⊆ refs) (n : Nat) :
    LinksReady root validateFormats refs n (linkReference root validateFormats n) := by
  induction n with
  | zero =>
      intro r l hr _ hl
      unfold linkReference
      cases hlookup : l.references.lookup r with
      | some k => exact ⟨k, l, rfl, hl⟩
      | none =>
          have hlt := Linkage.missing_cons_lt 0 hr hlookup
          omega
  | succ n ih =>
      rintro r l hr ⟨target, htarget, hready⟩ hl
      unfold linkReference
      cases hlookup : l.references.lookup r with
      | some k => exact ⟨k, l, rfl, hl⟩
      | none =>
          simp only [htarget]
          have hfollow : (l.follow r).missing refs ≤ n := by
            have hlt := Linkage.missing_cons_lt l.functions.length hr hlookup
            have hcongr : (l.follow r).missing refs
                = ({ l with references := (r, l.functions.length) :: l.references } : Linkage).missing refs :=
              Linkage.missing_congr rfl
            omega
          have hschema : Within root validateFormats refs target := ⟨hready, hclosed r hr target htarget⟩
          have hwritten : Succeeds (fun l => l.missing refs ≤ n)
              (writeFunction validateFormats (meetDemand (linkPart validateFormats
                (linkReference root validateFormats n) target.height) (linkReference root validateFormats n))
                l.reserve.1 target r (l.follow r)) := by
            refine writeFunction_succeeds (fun _ hd _ hl => ?_) hfollow
            exact meetDemand_succeeds hschema ih
              (fun sub location l hsub hlt hl => linkPart_succeeds ih target.height sub location l (by omega) hsub hl)
              hd hl
          obtain ⟨k, l', heq, hl'⟩ := hwritten
          exact ⟨k, l', heq, Nat.le_succ_of_le hl'⟩

end Visiting

/-! ## Modules -/

theorem exists_source_iff {root : Json} {validateFormats : Bool} {pointer : String} :
    (∃ text, source root validateFormats pointer = .ok text)
      ↔ ∃ n l, link root validateFormats pointer = .ok (n, l) := by
  unfold source
  cases link root validateFormats pointer with
  | error f => simp [bind, Except.bind]
  | ok r => exact iff_of_true ⟨_, rfl⟩ ⟨r.1, r.2, rfl⟩

/-- **There is a module exactly when the pointer leads to a definition and every schema visited from there is
acceptable.** -/
theorem source_succeeds_iff (root : Json) (validateFormats : Bool) (pointer : String) :
    (∃ text, source root validateFormats pointer = .ok text)
      ↔ ∃ target, resolveLocal? root pointer = some target
        ∧ ∀ schema, Visited root target schema → Acceptable root validateFormats schema := by
  rw [exists_source_iff]
  constructor
  · rintro ⟨n, l, h⟩
    have hsound := (links_of_linkReference h).sound
    have hall (r : String) (hr : l.Knows r) :
        ∃ target, resolveLocal? root r = some target ∧ Settled validateFormats l target :=
      (hsound.new r hr).resolve_left (by simp [Linkage.Knows])
    obtain ⟨target, htarget, hsettled⟩ := hall pointer (hsound.met _ List.mem_cons_self)
    refine ⟨target, htarget, fun schema hvisited => ?_⟩
    obtain ⟨hbody, hknown⟩ := hsettled.of_visited hall hvisited schema .refl
    refine ⟨hbody, fun r hr => ?_⟩
    obtain ⟨target, htarget, -⟩ := hall r (hknown r hr)
    exact ⟨target, htarget⟩
  · rintro ⟨target, htarget, hready⟩
    have hclosed : ∀ r ∈ pointer :: root.references, ∀ target, resolveLocal? root r = some target →
        target.references ⊆ pointer :: root.references := by
      intro r _ t ht
      refine List.subset_cons_of_subset _ ?_
      rcases Json.inside_of_resolveLocal? ht with rfl | hinside
      · exact List.Subset.refl _
      · exact hinside.references_subset
    have hmissing : ({} : Linkage).missing (pointer :: root.references) ≤ root.references.length + 1 :=
      List.countP_le_length
    obtain ⟨n, l, h, -⟩ := linkReference_succeeds hclosed _ List.mem_cons_self ⟨target, htarget, hready⟩ hmissing
    exact ⟨n, l, h⟩

end DecoderForge.Standalone
