import DecoderForge.Proofs.Standalone.Linked
import Mathlib.Data.List.Forall2
import Mathlib.Data.List.Nodup

/-!
# DecoderForge — what the numbers in a module stand for

Linking hands out numbers before there is anything under them: a function is set aside, its body asks for other
functions, and only then is it written.  A reference may come back to a function that is still being written.
Here every function number is given an origin, the schema that the function checks and where it stands.  While
functions are being written a module is wired: whatever has been written so far uses numbers that stand for
what was asked for.  When linking ends nothing is left unwritten.

## The architecture

* **`Origins`**, **`Linkage.Supplies`** — what function numbers are for, and a number that meets a demand.
* **`Extends`** — a later module: what was there stays, and each function added since has been written.
* **`Wired`** — each function written so far is the function of its origin.
* **`Links.wired`** — meeting demands keeps a module wired, by induction on what linking does.
* **`exists_origins_of_link`** — a linked module is wired, with nothing left to be written.
-/

namespace DecoderForge.Standalone

open Layout (Call)

/-- What the functions of a module check: a schema and its location, by number. -/
abbrev Origins := List (Json × String)

/-- A number that meets a demand. -/
def Linkage.Supplies (l : Linkage) (origins : Origins) : Demand → Nat → Prop
  | .constant value, k => l.constants[k]? = some value
  | .function schema location, k => origins[k]? = some (schema, location)
  | .reference r, k => l.references.lookup r = some k
  | .fault _, _ => False

/-! ## Later modules -/

/-- A later module.  The functions that had been set aside before are still as they were, and each one set
aside since has been written. -/
structure Extends (l l' : Linkage) : Prop where
  functions : ∃ codes : List (List Call), l'.functions = l.functions ++ codes.map some
  constants : l.constants <+: l'.constants
  references : ∀ {r k}, l.references.lookup r = some k → l'.references.lookup r = some k

namespace Extends

theorem refl (l : Linkage) : Extends l l where
  functions := ⟨[], by simp⟩
  constants := List.prefix_rfl
  references := id

theorem trans {l l₁ l₂ : Linkage} (h : Extends l l₁) (h' : Extends l₁ l₂) : Extends l l₂ where
  functions := by
    obtain ⟨codes, hcodes⟩ := h.functions
    obtain ⟨more, hmore⟩ := h'.functions
    exact ⟨codes ++ more, by rw [hmore, hcodes, List.map_append, List.append_assoc]⟩
  constants := h.constants.trans h'.constants
  references hr := h'.references (h.references hr)

theorem addConstant (l : Linkage) (value : String) : Extends l (l.addConstant value).2 where
  functions := ⟨[], by simp [Linkage.addConstant]⟩
  constants := List.prefix_append _ _
  references := id

end Extends

theorem Linkage.mem_of_lookup {l : Linkage} {r : String} {k : Nat} (h : l.references.lookup r = some k) :
    (r, k) ∈ l.references := by
  obtain ⟨before, after, heq, -⟩ := List.lookup_eq_some_iff.mp h
  simp [heq]

theorem getElem?_of_isPrefix {α : Type} {a b : List α} (h : a <+: b) {k : Nat} {x : α} (hx : a[k]? = some x) :
    b[k]? = some x := by
  obtain ⟨more, rfl⟩ := h
  obtain ⟨hk, -⟩ := List.getElem?_eq_some_iff.mp hx
  rw [List.getElem?_append_left hk, hx]

/-- What meets a demand meets it later, too. -/
theorem Linkage.Supplies.mono {l l' : Linkage} {origins origins' : Origins} {d : Demand} {k : Nat}
    (h : l.Supplies origins d k) (hl : Extends l l') (horigins : origins <+: origins') :
    l'.Supplies origins' d k := by
  cases d with
  | constant value => exact getElem?_of_isPrefix hl.constants h
  | function schema location => exact getElem?_of_isPrefix horigins h
  | reference r => exact hl.references h
  | fault f => exact h

/-! ## Functions that are set aside -/

/-- A module in which one more function is set aside, for a schema at a location.  A reference may come with
it, the one that stands as its location. -/
structure SetsAside (root : Json) (l l₁ : Linkage) (schema : Json) (location : String) : Prop where
  functions : l₁.functions = l.functions ++ [none]
  constants : l₁.constants = l.constants
  references : ∀ {r k}, l.references.lookup r = some k → l₁.references.lookup r = some k
  owned : ∀ {r k}, (r, k) ∈ l₁.references → (r, k) ∈ l.references
    ∨ k = l.functions.length ∧ r = location ∧ resolveLocal? root r = some schema
  once : (l.references.map Prod.fst).Nodup → (l₁.references.map Prod.fst).Nodup

section Linking

variable {root : Json} {validateFormats : Bool} {origins : Origins} {l l₁ l₂ : Linkage} {schema : Json}
  {location : String}

theorem setsAside_reserve (root : Json) (l : Linkage) (schema : Json) (location : String) :
    SetsAside root l l.reserve.2 schema location where
  functions := rfl
  constants := rfl
  references := id
  owned := .inl
  once := id

/-- A reference that is not known yet. -/
theorem setsAside_follow {r : String} {target : Json} (hlookup : l.references.lookup r = none)
    (htarget : resolveLocal? root r = some target) : SetsAside root l (l.follow r) target r where
  functions := rfl
  constants := rfl
  references {s k} hs := by
    have hne : (s == r) = false := by
      refine beq_eq_false_iff_ne.mpr fun h => ?_
      rw [h, hlookup] at hs
      exact absurd hs (by simp)
    show List.lookup s ((r, l.functions.length) :: l.references) = some k
    rwa [List.lookup_cons, hne]
  owned hr := by
    rcases List.mem_cons.mp hr with heq | hr
    · obtain ⟨rfl, rfl⟩ := Prod.mk.inj heq
      exact .inr ⟨rfl, rfl, htarget⟩
    · exact .inl hr
  once h := by
    refine List.nodup_cons.mpr ⟨fun hr => ?_, h⟩
    obtain ⟨⟨s, k⟩, hmem, rfl⟩ := List.mem_map.mp hr
    exact absurd (beq_self_eq_true s) (by simpa using List.lookup_eq_none_iff.mp hlookup _ hmem)

/-- A function that is set aside, and written when the demands of its body have been met. -/
theorem SetsAside.extends (h : SetsAside root l l₁ schema location) (hbody : Extends l₁ l₂) (ms : List Nat) :
    Extends l (l₂.write validateFormats l.functions.length schema location ms) where
  functions := by
    obtain ⟨codes, hcodes⟩ := hbody.functions
    refine ⟨functionCode l.functions.length ((body validateFormats schema location).lines ms) :: codes, ?_⟩
    simp [Linkage.write, Linkage.define, hcodes, h.functions]
  constants := h.constants ▸ hbody.constants
  references hr := hbody.references (h.references hr)

/-! ## Wired modules -/

/-- Each function that is written is the function of its origin, where every demand is met; each reference
owns a function for its target. -/
structure Wired (root : Json) (validateFormats : Bool) (origins : Origins) (l : Linkage) : Prop where
  length : origins.length = l.functions.length
  written : ∀ {k code}, l.functions[k]? = some (some code) → ∃ schema location ns,
    origins[k]? = some (schema, location)
      ∧ code = functionCode k ((body validateFormats schema location).lines ns)
      ∧ List.Forall₂ (l.Supplies origins) (body validateFormats schema location).demands ns
  owned : ∀ {r k}, (r, k) ∈ l.references → ∃ target, resolveLocal? root r = some target
    ∧ origins[k]? = some (target, r)
  once : (l.references.map Prod.fst).Nodup

namespace Wired

theorem empty : Wired root validateFormats [] {} where
  length := rfl
  written h := by simp at h
  owned h := absurd h List.not_mem_nil
  once := .nil

theorem addConstant (h : Wired root validateFormats origins l) (value : String) :
    Wired root validateFormats origins (l.addConstant value).2 where
  length := h.length
  written hk := by
    obtain ⟨schema, location, ns, horigin, hcode, hmet⟩ := h.written hk
    exact ⟨schema, location, ns, horigin, hcode,
      hmet.imp fun _ _ hd => hd.mono (.addConstant l value) List.prefix_rfl⟩
  owned := h.owned
  once := h.once

theorem setAside (h : Wired root validateFormats origins l) (hset : SetsAside root l l₁ schema location) :
    Wired root validateFormats (origins ++ [(schema, location)]) l₁ where
  length := by simp [hset.functions, h.length]
  written {k code} hk := by
    -- the function set aside is not written yet
    have hbefore : l.functions[k]? = some (some code) := by
      rw [hset.functions] at hk
      rcases Nat.lt_or_ge k l.functions.length with hlt | hge
      · rwa [List.getElem?_append_left hlt] at hk
      · simp [List.getElem?_append_right hge, List.getElem?_singleton] at hk
    obtain ⟨schema', location', ns, horigin, hcode, hmet⟩ := h.written hbefore
    refine ⟨schema', location', ns, getElem?_of_isPrefix (List.prefix_append _ _) horigin, hcode,
      hmet.imp fun d n hd => ?_⟩
    cases d with
    | constant value => exact (congrArg (·[n]?) hset.constants).trans hd
    | function schema location => exact getElem?_of_isPrefix (List.prefix_append _ _) hd
    | reference r => exact hset.references hd
    | fault f => exact hd
  owned hr := by
    rcases hset.owned hr with hold | ⟨rfl, rfl, htarget⟩
    · obtain ⟨target, htarget, horigin⟩ := h.owned hold
      exact ⟨target, htarget, getElem?_of_isPrefix (List.prefix_append _ _) horigin⟩
    · exact ⟨schema, htarget, by simp [← h.length]⟩
  once := hset.once h.once

/-- A function that was set aside is written for its origin. -/
theorem write (h : Wired root validateFormats origins l) {k : Nat} {ns : List Nat}
    (horigin : origins[k]? = some (schema, location))
    (hmet : List.Forall₂ (l.Supplies origins) (body validateFormats schema location).demands ns) :
    Wired root validateFormats origins (l.write validateFormats k schema location ns) where
  length := by simp [Linkage.write, Linkage.define, h.length]
  written {i code} hi := by
    rcases eq_or_ne k i with rfl | hne
    · have hcode : code = functionCode k ((body validateFormats schema location).lines ns) := by
        simp only [Linkage.write, Linkage.define, List.getElem?_set_self'] at hi
        obtain ⟨_, -, hi⟩ := Option.map_eq_some_iff.mp hi
        exact (Option.some.inj hi).symm
      exact ⟨schema, location, ns, horigin, hcode, hmet⟩
    · simp only [Linkage.write, Linkage.define, List.getElem?_set_ne hne] at hi
      exact h.written hi
  owned := h.owned
  once := h.once

/-- Different references own different functions. -/
theorem nodup_numbers (h : Wired root validateFormats origins l) : (l.references.map Prod.snd).Nodup := by
  refine (List.Nodup.of_map _ h.once).map_on fun a ha b hb hab => ?_
  obtain ⟨target, -, horigin⟩ := h.owned ha
  obtain ⟨target', -, horigin'⟩ := h.owned hb
  rw [← hab, horigin] at horigin'
  exact Prod.ext (Prod.mk.inj (Option.some.inj horigin')).2 hab

end Wired

/-- A demand for schemas with a property. -/
def Demand.Concerns (root : Json) (P : Json → Prop) : Demand → Prop
  | .function schema _ => P schema
  | .reference r => ∀ target, resolveLocal? root r = some target → P target
  | .constant _ | .fault _ => True

/-- What comes of demands that are met in a wired module: later origins, a later module that is wired again,
and numbers that stand for what was asked for.  The later origins have the property that the demands speak of. -/
def Supplied (root : Json) (validateFormats : Bool) (P : Json → Prop) (origins : Origins) (l : Linkage)
    (ds : List Demand) (ns : List Nat) (l' : Linkage) : Prop :=
  ∃ more : Origins, Wired root validateFormats (origins ++ more) l' ∧ Extends l l'
    ∧ List.Forall₂ (l'.Supplies (origins ++ more)) ds ns ∧ ∀ o ∈ more, P o.1

/-- A function that is set aside is written when the demands of its body have been met, whatever else was
written meanwhile. -/
theorem SetsAside.written {P : Json → Prop} (hset : SetsAside root l l₁ schema location)
    (h : Wired root validateFormats origins l) (hP : P schema) {ms : List Nat}
    (hbody : ∀ {origins}, Wired root validateFormats origins l₁ →
      Supplied root validateFormats P origins l₁ (body validateFormats schema location).demands ms l₂) :
    ∃ more : Origins, Wired root validateFormats (origins ++ more)
        (l₂.write validateFormats l.functions.length schema location ms)
      ∧ Extends l (l₂.write validateFormats l.functions.length schema location ms)
      ∧ (origins ++ more)[l.functions.length]? = some (schema, location)
      ∧ (∀ {r k}, l₁.references.lookup r = some k → l₂.references.lookup r = some k)
      ∧ ∀ o ∈ more, P o.1 := by
  obtain ⟨inBody, hwired, hextends, hmet, hmore⟩ := hbody (h.setAside hset)
  have horigin : (origins ++ [(schema, location)] ++ inBody)[l.functions.length]? = some (schema, location) := by
    simp [← h.length]
  have hwritten := hwired.write horigin hmet
  rw [List.append_assoc] at horigin hwritten
  refine ⟨_, hwritten, hset.extends hextends ms, horigin, hextends.references, fun o ho => ?_⟩
  rcases List.mem_append.mp ho with ho | ho
  · obtain rfl := List.mem_singleton.mp ho
    exact hP
  · exact hmore o ho

/-- A demand that is met before others. -/
theorem Supplied.cons {P : Json → Prop} {d : Demand} {rest : List Demand} {l' : Linkage} {n : Nat} {ns : List Nat}
    {more : Origins} (hextends : Extends l l₁) (hfirst : l₁.Supplies (origins ++ more) d n)
    (hmore : ∀ o ∈ more, P o.1) (hrest : Supplied root validateFormats P (origins ++ more) l₁ rest ns l') :
    Supplied root validateFormats P origins l (d :: rest) (n :: ns) l' := by
  obtain ⟨after, hwired, hextends', hmet, hafter⟩ := hrest
  have hmet' := List.Forall₂.cons (hfirst.mono hextends' (List.prefix_append _ after)) hmet
  rw [List.append_assoc] at hwired hmet'
  exact ⟨_, hwired, hextends.trans hextends', hmet', List.forall_mem_append.mpr ⟨hmore, hafter⟩⟩

/-- Faults are never met. -/
theorem Links.noFault {ds : List Demand} {l l' : Linkage} {ns : List Nat} (h : Links root validateFormats ds l ns l') :
    ∀ f, .fault f ∉ ds := by
  induction h with
  | nil => simp
  | constant _ ih | function _ _ _ ih | known _ _ ih | followed _ _ _ _ _ ih => simpa using ih

/-- **Meeting demands keeps a module wired**, and gives them numbers that stand for what was asked for.  A property
that schemas pass on to what their bodies demand is passed on to the origins of all functions. -/
theorem Links.wired {P : Json → Prop} (hP : ∀ schema, P schema → ∀ location,
      (∀ f, .fault f ∉ (body validateFormats schema location).demands) →
        ∀ d ∈ (body validateFormats schema location).demands, d.Concerns root P)
    {ds : List Demand} {l l' : Linkage} {ns : List Nat} (h : Links root validateFormats ds l ns l')
    (hds : ∀ d ∈ ds, d.Concerns root P) : ∀ {origins : Origins}, Wired root validateFormats origins l →
      Supplied root validateFormats P origins l ds ns l' := by
  induction h with
  | nil l => exact fun hwired => ⟨[], by simpa using hwired, .refl l, .nil, by simp⟩
  | @constant value rest l l' ns _ ih =>
      intro origins hwired
      have hfirst : (l.addConstant value).2.Supplies (origins ++ []) (.constant value) (l.addConstant value).1 := by
        simp [Linkage.Supplies, Linkage.addConstant]
      exact .cons (.addConstant l value) hfirst (by simp)
        (ih (List.forall_mem_cons.mp hds).2 (by simpa using hwired.addConstant value))
  | @function schema location rest l l₁ l' ms ns hbody _ ihbody ihrest =>
      intro origins hwired
      obtain ⟨hschema, hrest⟩ := List.forall_mem_cons.mp hds
      obtain ⟨more, hwritten, hextends, horigin, -, hmore⟩ := (setsAside_reserve root l schema location).written hwired
        hschema (ihbody (hP schema hschema location hbody.noFault))
      exact .cons hextends horigin hmore (ihrest hrest hwritten)
  | @known r n rest l l' ns hlookup _ ih =>
      intro origins hwired
      have hfirst : l.Supplies (origins ++ []) (.reference r) n := hlookup
      exact .cons (.refl l) hfirst (by simp) (ih (List.forall_mem_cons.mp hds).2 (by simpa using hwired))
  | @followed r target rest l l₁ l' ms ns hlookup htarget hbody _ ihbody ihrest =>
      intro origins hwired
      obtain ⟨hreference, hrest⟩ := List.forall_mem_cons.mp hds
      have hschema : P target := hreference target htarget
      obtain ⟨more, hwritten, hextends, -, hkept, hmore⟩ := (setsAside_follow hlookup htarget).written hwired hschema
        (ihbody (hP target hschema r hbody.noFault))
      -- the reference is known before the demands of its body are met
      have hknown : (l.follow r).references.lookup r = some l.functions.length := List.lookup_cons_self
      exact .cons hextends (hkept hknown) hmore (ihrest hrest hwritten)

/-- **When linking ends every function has been written**, and the pointer has its function.  A property that
schemas pass on to what their bodies demand is passed on from the target of the pointer to every origin. -/
theorem exists_origins_of_link {P : Json → Prop} (hP : ∀ schema, P schema → ∀ location,
      (∀ f, .fault f ∉ (body validateFormats schema location).demands) →
        ∀ d ∈ (body validateFormats schema location).demands, d.Concerns root P)
    {pointer : String} (hpointer : ∀ target, resolveLocal? root pointer = some target → P target) {entry : Nat}
    {l : Linkage} (h : link root validateFormats pointer = .ok (entry, l)) :
    ∃ (origins : Origins) (codes : List (List Call)), Wired root validateFormats origins l
      ∧ l.functions = codes.map some ∧ l.references.lookup pointer = some entry ∧ ∀ o ∈ origins, P o.1 := by
  have hds : ∀ d ∈ [Demand.reference pointer], d.Concerns root P := by
    intro d hd
    obtain rfl := List.mem_singleton.mp hd
    exact hpointer
  obtain ⟨origins, hwired, hextends, hmet, horigins⟩ := (links_of_linkReference h).wired hP hds .empty
  obtain ⟨codes, hcodes⟩ := hextends.functions
  cases hmet with
  | cons hentry _ => exact ⟨_, codes, hwired, hcodes, hentry, horigins⟩

theorem wired_of_link {pointer : String} {entry : Nat} {l : Linkage}
    (h : link root validateFormats pointer = .ok (entry, l)) :
    ∃ (origins : Origins) (codes : List (List Call)), Wired root validateFormats origins l
      ∧ l.functions = codes.map some ∧ l.references.lookup pointer = some entry := by
  obtain ⟨origins, codes, hwired, hcodes, hentry, -⟩ := exists_origins_of_link (P := fun _ => True)
    (fun _ _ _ _ d _ => by cases d <;> simp [Demand.Concerns]) (fun _ _ => trivial) h
  exact ⟨origins, codes, hwired, hcodes, hentry⟩

/-- What holds of every constant that a body demands holds of the constants of a module. -/
theorem Links.forall_constants {P : String → Prop} (hP : ∀ schema location value,
      .constant value ∈ (body validateFormats schema location).demands → P value)
    {ds : List Demand} {l l' : Linkage} {ns : List Nat} (h : Links root validateFormats ds l ns l')
    (hds : ∀ value, .constant value ∈ ds → P value) (hl : ∀ value ∈ l.constants, P value) :
    ∀ value ∈ l'.constants, P value := by
  induction h with
  | nil l => exact hl
  | @constant value rest l l' ns _ ih =>
      refine ih (fun v hv => hds v (List.mem_cons_of_mem _ hv)) fun v hv => ?_
      rcases List.mem_append.mp hv with hv | hv
      · exact hl v hv
      · obtain rfl := List.mem_singleton.mp hv
        exact hds v List.mem_cons_self
  | function _ _ ihbody ihrest =>
      exact ihrest (fun v hv => hds v (List.mem_cons_of_mem _ hv)) (ihbody (hP _ _) hl)
  | known _ _ ih => exact ih (fun v hv => hds v (List.mem_cons_of_mem _ hv)) hl
  | followed _ _ _ _ ihbody ihrest =>
      exact ihrest (fun v hv => hds v (List.mem_cons_of_mem _ hv)) (ihbody (hP _ _) hl)

end Linking

end DecoderForge.Standalone
