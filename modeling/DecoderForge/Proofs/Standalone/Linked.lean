import DecoderForge.Proofs.Result
import DecoderForge.Standalone.Link

/-!
# DecoderForge — what linking does

Linking goes down schemas and from reference to reference under bounds that end it.  Where it succeeds
the bounds do not show: it meets each demand in one of four ways, and the module grows accordingly.

## The architecture

* **`Links`** — demands that are met one after the other, one constructor for each way.
* **`Links.cons`** — a demand that is met before others.
* **`links_of_linkPart`**, **`links_of_linkReference`** — linking that succeeds, whatever the bounds.
-/

namespace DecoderForge.Standalone

namespace Linkage

/-- Gives a reference the next function number. -/
def follow (l : Linkage) (r : String) : Linkage :=
  { l.reserve.2 with references := (r, l.reserve.1) :: l.references }

/-- The function with a number, once the demands of its body have been met. -/
def write (l : Linkage) (validateFormats : Bool) (n : Nat) (schema : Json) (location : String)
    (ns : List Nat) : Linkage :=
  l.define n (functionCode n ((body validateFormats schema location).lines ns))

end Linkage

/-- Demands that are met in order: the module before, the numbers that meet them, the module after. -/
inductive Links (root : Json) (validateFormats : Bool) :
    List Demand → Linkage → List Nat → Linkage → Prop where
  | nil (l : Linkage) : Links root validateFormats [] l [] l
  /-- A constant is added. -/
  | constant {value : String} {rest : List Demand} {l l' : Linkage} {ns : List Nat}
      (hrest : Links root validateFormats rest (l.addConstant value).2 ns l') :
      Links root validateFormats (.constant value :: rest) l ((l.addConstant value).1 :: ns) l'
  /-- A function is written for a part of a schema, always a new one. -/
  | function {schema : Json} {location : String} {rest : List Demand} {l l₁ l' : Linkage} {ms ns : List Nat}
      (hbody : Links root validateFormats (body validateFormats schema location).demands l.reserve.2 ms l₁)
      (hrest : Links root validateFormats rest
        (l₁.write validateFormats l.reserve.1 schema location ms) ns l') :
      Links root validateFormats (.function schema location :: rest) l (l.reserve.1 :: ns) l'
  /-- A reference that is known has its function. -/
  | known {r : String} {n : Nat} {rest : List Demand} {l l' : Linkage} {ns : List Nat}
      (hlookup : l.references.lookup r = some n) (hrest : Links root validateFormats rest l ns l') :
      Links root validateFormats (.reference r :: rest) l (n :: ns) l'
  /-- A reference that is met for the first time is known while the function of its target is written. -/
  | followed {r : String} {target : Json} {rest : List Demand} {l l₁ l' : Linkage} {ms ns : List Nat}
      (hlookup : l.references.lookup r = none) (htarget : resolveLocal? root r = some target)
      (hbody : Links root validateFormats (body validateFormats target r).demands (l.follow r) ms l₁)
      (hrest : Links root validateFormats rest
        (l₁.write validateFormats l.reserve.1 target r ms) ns l') :
      Links root validateFormats (.reference r :: rest) l (l.reserve.1 :: ns) l'

section Linking

variable {root : Json} {validateFormats : Bool}

/-- A demand that is met before others. -/
theorem Links.cons {d : Demand} {rest : List Demand} {l l₁ l' : Linkage} {n : Nat} {ns : List Nat}
    (hfirst : Links root validateFormats [d] l [n] l₁) (hrest : Links root validateFormats rest l₁ ns l') :
    Links root validateFormats (d :: rest) l (n :: ns) l' := by
  cases hfirst with
  | constant hnil =>
      cases hnil
      exact .constant hrest
  | function hbody hnil =>
      cases hnil
      exact .function hbody hrest
  | known hlookup hnil =>
      cases hnil
      exact .known hlookup hrest
  | followed hlookup htarget hbody hnil =>
      cases hnil
      exact .followed hlookup htarget hbody hrest

/-- What meets a single demand does what linking does. -/
def MeetsLinked (root : Json) (validateFormats : Bool) (meet : Demand → Linkage → Linked Nat) : Prop :=
  ∀ {d l n l'}, meet d l = .ok (n, l') → Links root validateFormats [d] l [n] l'

theorem links_of_meetAll {meet : Demand → Linkage → Linked Nat}
    (hmeet : MeetsLinked root validateFormats meet) :
    ∀ {ds : List Demand} {l l' : Linkage} {ns : List Nat}, meetAll meet ds l = .ok (ns, l') →
      Links root validateFormats ds l ns l'
  | [], _, _, _, h => by
      obtain ⟨rfl, rfl⟩ := Prod.mk.inj (Except.ok.inj h)
      exact .nil _
  | d :: rest, l, l', ns, h => by
      obtain ⟨⟨n, l₁⟩, hfirst, h⟩ := bind_eq_ok h
      obtain ⟨⟨ms, l₂⟩, hrest, h⟩ := bind_eq_ok h
      obtain ⟨rfl, rfl⟩ := Prod.mk.inj (Except.ok.inj h)
      exact (hmeet hfirst).cons (links_of_meetAll hmeet hrest)

/-- A function that is written has met the demands of its body. -/
theorem links_of_writeFunction {meet : Demand → Linkage → Linked Nat} {k n : Nat} {schema : Json}
    {location : String} {l l' : Linkage} (hmeet : MeetsLinked root validateFormats meet)
    (h : writeFunction validateFormats meet k schema location l = .ok (n, l')) :
    n = k ∧ ∃ ms l₁, Links root validateFormats (body validateFormats schema location).demands l ms l₁
      ∧ l' = l₁.write validateFormats k schema location ms := by
  obtain ⟨⟨ms, l₁⟩, hall, h⟩ := bind_eq_ok h
  obtain ⟨rfl, rfl⟩ := Prod.mk.inj (Except.ok.inj h)
  exact ⟨rfl, ms, l₁, links_of_meetAll hmeet hall, rfl⟩

/-- Functions and references that are linked make up demands that are met. -/
theorem meetsLinked_meetDemand {function : Json → String → Linkage → Linked Nat}
    {reference : String → Linkage → Linked Nat}
    (hfunction : ∀ {schema location l n l'}, function schema location l = .ok (n, l') →
      Links root validateFormats [.function schema location] l [n] l')
    (hreference : ∀ {r l n l'}, reference r l = .ok (n, l') → Links root validateFormats [.reference r] l [n] l') :
    MeetsLinked root validateFormats (meetDemand function reference) := by
  intro d l n l' h
  cases d with
  | constant value =>
      obtain ⟨rfl, rfl⟩ := Prod.mk.inj (Except.ok.inj h)
      exact .constant (.nil _)
  | function schema location => exact hfunction h
  | reference r => exact hreference h
  | fault f => exact absurd h (by simp [meetDemand])

/-- Parts of a schema, whatever height is allowed. -/
theorem links_of_linkPart {reference : String → Linkage → Linked Nat}
    (hreference : ∀ {r l n l'}, reference r l = .ok (n, l') → Links root validateFormats [.reference r] l [n] l') :
    ∀ {fuel : Nat} {schema : Json} {location : String} {l l' : Linkage} {n : Nat},
      linkPart validateFormats reference fuel schema location l = .ok (n, l') →
        Links root validateFormats [.function schema location] l [n] l'
  | 0, _, _, _, _, _, h => by
      obtain ⟨rfl, ms, l₁, hbody, rfl⟩ := links_of_writeFunction
        (meetsLinked_meetDemand (fun h => absurd h (by simp)) hreference) h
      exact .function hbody (.nil _)
  | _ + 1, _, _, _, _, _, h => by
      obtain ⟨rfl, ms, l₁, hbody, rfl⟩ := links_of_writeFunction
        (meetsLinked_meetDemand (links_of_linkPart hreference) hreference) h
      exact .function hbody (.nil _)

/-- **References, however many may be followed.** -/
theorem links_of_linkReference : ∀ {fuel : Nat} {r : String} {l l' : Linkage} {n : Nat},
    linkReference root validateFormats fuel r l = .ok (n, l') →
      Links root validateFormats [.reference r] l [n] l' := by
  intro fuel
  induction fuel with
  | zero =>
      intro r l l' n h
      unfold linkReference at h
      cases hlookup : l.references.lookup r with
      | some k =>
          simp only [hlookup] at h
          obtain ⟨rfl, rfl⟩ := Prod.mk.inj (Except.ok.inj h)
          exact .known hlookup (.nil _)
      | none => simp [hlookup] at h
  | succ fuel ih =>
      intro r l l' n h
      unfold linkReference at h
      cases hlookup : l.references.lookup r with
      | some k =>
          simp only [hlookup] at h
          obtain ⟨rfl, rfl⟩ := Prod.mk.inj (Except.ok.inj h)
          exact .known hlookup (.nil _)
      | none =>
          simp only [hlookup] at h
          cases htarget : resolveLocal? root r with
          | none => simp [htarget] at h
          | some target =>
              simp only [htarget] at h
              obtain ⟨rfl, ms, l₁, hbody, rfl⟩ := links_of_writeFunction
                (meetsLinked_meetDemand (links_of_linkPart ih) ih) h
              exact .followed hlookup htarget hbody (.nil _)

end Linking

end DecoderForge.Standalone
