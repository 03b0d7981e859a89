import DecoderForge.Proofs.Standalone.Emission

/-!
# DecoderForge — emission ends

Linking is computed under two bounds, one on the height of schemas and one on the references that are followed
within one another.  Here emission is described without any bound, faults included, together with the references
whose bodies are written on the way.  For every document and pointer there is exactly one such run, so that
emission ends however the references go round, and in that run no reference has its body written twice.

The measure is twofold.  A part of a schema is lower than the schema; a reference that is followed leaves one
reference of the document fewer without a function.

## The architecture

* **`Run`** — demands that are met one after another, or the fault at which this ends.
* **`Run.unique`** — there is no choice on the way.
* **`Run.traced`** — the references that are followed: each once, and none that has a function already.
* **`run_of_linkPart`**, **`run_of_linkReference`** — linking is such a run, as long as the bounds suffice.
* **`emission_terminates`** — the bounds suffice for every document.
-/

namespace DecoderForge.Standalone

/-- What comes of some demands: numbers that meet them and the module behind them, or a fault. -/
abbrev Outcome := Except Fault (List Nat × Linkage)

/-- The outcome of some demands with one before them that has been met. -/
def prepend (n : Nat) (o : Outcome) : Outcome := o.map fun r => (n :: r.1, r.2)

/-- The outcome of a single demand. -/
def single (x : Linked Nat) : Outcome := x.map fun r => ([r.1], r.2)

/-- Demands that are met in order, or end in a fault: the module before, the references whose bodies are
written on the way, in order, and the outcome. -/
inductive Run (root : Json) (validateFormats : Bool) :
    List Demand → Linkage → List String → Outcome → Prop where
  | nil (l : Linkage) : Run root validateFormats [] l [] (.ok ([], l))
  /-- A demand that cannot be met. -/
  | fault (f : Fault) (rest : List Demand) (l : Linkage) :
      Run root validateFormats (.fault f :: rest) l [] (.error f)
  | constant {value : String} {rest : List Demand} {l : Linkage} {followed : List String} {o : Outcome}
      (hrest : Run root validateFormats rest (l.addConstant value).2 followed o) :
      Run root validateFormats (.constant value :: rest) l followed (prepend (l.addConstant value).1 o)
  /-- A function for a part of a schema is set aside, then the demands of its body are met. -/
  | function {schema : Json} {location : String} {rest : List Demand} {l l₁ : Linkage} {ms : List Nat}
      {inBody after : List String} {o : Outcome}
      (hbody : Run root validateFormats (body validateFormats schema location).demands l.reserve.2 inBody
        (.ok (ms, l₁)))
      (hrest : Run root validateFormats rest (l₁.write validateFormats l.reserve.1 schema location ms) after o) :
      Run root validateFormats (.function schema location :: rest) l (inBody ++ after) (prepend l.reserve.1 o)
  /-- A fault in the body of that function. -/
  | functionFault {schema : Json} {location : String} {rest : List Demand} {l : Linkage}
      {inBody : List String} {f : Fault}
      (hbody : Run root validateFormats (body validateFormats schema location).demands l.reserve.2 inBody
        (.error f)) :
      Run root validateFormats (.function schema location :: rest) l inBody (.error f)
  /-- A reference that is known has its function. -/
  | known {r : String} {n : Nat} {rest : List Demand} {l : Linkage} {followed : List String} {o : Outcome}
      (hlookup : l.references.lookup r = some n) (hrest : Run root validateFormats rest l followed o) :
      Run root validateFormats (.reference r :: rest) l followed (prepend n o)
  /-- A reference that leads nowhere. -/
  | unresolved {r : String} {rest : List Demand} {l : Linkage} (hlookup : l.references.lookup r = none)
      (htarget : resolveLocal? root r = none) :
      Run root validateFormats (.reference r :: rest) l [] (.error (.unresolved r))
  /-- A reference that is met for the first time is known while the body of its target is written. -/
  | followed {r : String} {target : Json} {rest : List Demand} {l l₁ : Linkage} {ms : List Nat}
      {inBody after : List String} {o : Outcome} (hlookup : l.references.lookup r = none)
      (htarget : resolveLocal? root r = some target)
      (hbody : Run root validateFormats (body validateFormats target r).demands (l.follow r) inBody (.ok (ms, l₁)))
      (hrest : Run root validateFormats rest (l₁.write validateFormats l.reserve.1 target r ms) after o) :
      Run root validateFormats (.reference r :: rest) l (r :: inBody ++ after) (prepend l.reserve.1 o)
  /-- A fault in the body of the target. -/
  | followedFault {r : String} {target : Json} {rest : List Demand} {l : Linkage} {inBody : List String}
      {f : Fault} (hlookup : l.references.lookup r = none) (htarget : resolveLocal? root r = some target)
      (hbody : Run root validateFormats (body validateFormats target r).demands (l.follow r) inBody (.error f)) :
      Run root validateFormats (.reference r :: rest) l (r :: inBody) (.error f)

/-- Emission of the module for the definition under a pointer. -/
inductive Emits (root : Json) (validateFormats : Bool) (pointer : String) :
    List String → Except Fault String → Prop where
  | text {followed : List String} {n : Nat} {l : Linkage}
      (h : Run root validateFormats [.reference pointer] {} followed (.ok ([n], l))) :
      Emits root validateFormats pointer followed (.ok (Layout.render "  " (moduleCalls n l)))
  | fault {followed : List String} {f : Fault}
      (h : Run root validateFormats [.reference pointer] {} followed (.error f)) :
      Emits root validateFormats pointer followed (.error f)

section Running

variable {root : Json} {validateFormats : Bool}

/-! ## No choice -/

/-- **There is at most one run.**  The first demand and what is known of it decide what happens. -/
theorem Run.unique {ds : List Demand} {l : Linkage} {followed followed' : List String} {o o' : Outcome}
    (h : Run root validateFormats ds l followed o) (h' : Run root validateFormats ds l followed' o') :
    followed = followed' ∧ o = o' := by
  induction h generalizing followed' o' with
  | nil l =>
      cases h'
      exact ⟨rfl, rfl⟩
  | fault f rest l =>
      cases h'
      exact ⟨rfl, rfl⟩
  | constant _ ih =>
      cases h' with
      | constant hrest =>
          obtain ⟨rfl, rfl⟩ := ih hrest
          exact ⟨rfl, rfl⟩
  | function _ _ ihbody ihrest =>
      cases h' with
      | function hbody hrest =>
          obtain ⟨rfl, hsame⟩ := ihbody hbody
          obtain ⟨rfl, rfl⟩ := Prod.mk.inj (Except.ok.inj hsame)
          obtain ⟨rfl, rfl⟩ := ihrest hrest
          exact ⟨rfl, rfl⟩
      | functionFault hbody => exact absurd (ihbody hbody).2 (by simp)
  | functionFault _ ihbody =>
      cases h' with
      | function hbody _ => exact absurd (ihbody hbody).2 (by simp)
      | functionFault hbody => exact ihbody hbody
  | known hlookup _ ih =>
      cases h' with
      | known hlookup' hrest =>
          obtain rfl := Option.some.inj (hlookup.symm.trans hlookup')
          obtain ⟨rfl, rfl⟩ := ih hrest
          exact ⟨rfl, rfl⟩
      | unresolved hnone _ => exact absurd (hlookup.symm.trans hnone) (by simp)
      | followed hnone _ _ _ => exact absurd (hlookup.symm.trans hnone) (by simp)
      | followedFault hnone _ _ => exact absurd (hlookup.symm.trans hnone) (by simp)
  | unresolved hlookup htarget =>
      cases h' with
      | known hsome _ => exact absurd (hlookup.symm.trans hsome) (by simp)
      | unresolved _ _ => exact ⟨rfl, rfl⟩
      | followed _ hsome _ _ => exact absurd (htarget.symm.trans hsome) (by simp)
      | followedFault _ hsome _ => exact absurd (htarget.symm.trans hsome) (by simp)
  | followed hlookup htarget _ _ ihbody ihrest =>
      cases h' with
      | known hsome _ => exact absurd (hlookup.symm.trans hsome) (by simp)
      | unresolved _ hnone => exact absurd (htarget.symm.trans hnone) (by simp)
      | followed _ htarget' hbody hrest =>
          obtain rfl := Option.some.inj (htarget.symm.trans htarget')
          obtain ⟨rfl, hsame⟩ := ihbody hbody
          obtain ⟨rfl, rfl⟩ := Prod.mk.inj (Except.ok.inj hsame)
          obtain ⟨rfl, rfl⟩ := ihrest hrest
          exact ⟨rfl, rfl⟩
      | followedFault _ htarget' hbody =>
          obtain rfl := Option.some.inj (htarget.symm.trans htarget')
          exact absurd (ihbody hbody).2 (by simp)
  | followedFault hlookup htarget _ ihbody =>
      cases h' with
      | known hsome _ => exact absurd (hlookup.symm.trans hsome) (by simp)
      | unresolved _ hnone => exact absurd (htarget.symm.trans hnone) (by simp)
      | followed _ htarget' hbody _ =>
          obtain rfl := Option.some.inj (htarget.symm.trans htarget')
          exact absurd (ihbody hbody).2 (by simp)
      | followedFault _ htarget' hbody =>
          obtain rfl := Option.some.inj (htarget.symm.trans htarget')
          obtain ⟨rfl, hsame⟩ := ihbody hbody
          exact ⟨rfl, hsame⟩

/-! ## The references that are followed -/

/-- Some references were followed from one module on: each once, none that had a function, and all of them
have one if this did not end in a fault. -/
structure Traced (l : Linkage) (followed : List String) (o : Outcome) : Prop where
  nodup : followed.Nodup
  fresh : ∀ r ∈ followed, ¬ l.Knows r
  known : ∀ {ns l'}, o = .ok (ns, l') → ∀ r, l'.Knows r ↔ l.Knows r ∨ r ∈ followed

namespace Traced

theorem nothing {l : Linkage} {o : Outcome} (h : ∀ {ns l'}, o = .ok (ns, l') → l'.references = l.references) :
    Traced l [] o where
  nodup := .nil
  fresh := by simp
  known ho r := by
    unfold Linkage.Knows
    rw [h ho]
    simp

/-- Only the references of the module count. -/
theorem of_references {l l₁ : Linkage} {followed : List String} {o : Outcome} (h : Traced l₁ followed o)
    (heq : l₁.references = l.references) : Traced l followed o := by
  have hknows (r : String) : l₁.Knows r ↔ l.Knows r := by
    unfold Linkage.Knows
    rw [heq]
  exact ⟨h.nodup, fun r hr => (hknows r).not.mp (h.fresh r hr), fun ho r => by rw [h.known ho, hknows]⟩

theorem prepend {l : Linkage} {followed : List String} {o : Outcome} (h : Traced l followed o) (n : Nat) :
    Traced l followed (prepend n o) where
  nodup := h.nodup
  fresh := h.fresh
  known ho := by
    obtain ⟨⟨ms, l₁⟩, hok, heq⟩ := map_eq_ok ho
    obtain ⟨-, rfl⟩ := Prod.mk.inj heq
    exact h.known hok

/-- One run after another. -/
theorem append {l l₁ l₂ : Linkage} {ms : List Nat} {first second : List String} {o : Outcome}
    (h : Traced l first (.ok (ms, l₁))) (heq : l₂.references = l₁.references) (h' : Traced l₂ second o) :
    Traced l (first ++ second) o := by
  have h' := h'.of_references heq
  have hknown := h.known rfl
  refine ⟨List.nodup_append.mpr ⟨h.nodup, h'.nodup, ?_⟩, fun r hr => ?_, fun ho r => ?_⟩
  · -- what is followed first is known afterwards
    rintro r hr s hs rfl
    exact h'.fresh r hs ((hknown r).mpr (Or.inr hr))
  · rcases List.mem_append.mp hr with hr | hr
    · exact h.fresh r hr
    · exact fun hk => h'.fresh r hr ((hknown r).mpr (Or.inl hk))
  · rw [h'.known ho, hknown, List.mem_append, or_assoc]

/-- A reference that is known while others are followed. -/
theorem follow {l : Linkage} {r : String} {followed : List String} {o : Outcome}
    (hlookup : l.references.lookup r = none) (h : Traced (l.follow r) followed o) : Traced l (r :: followed) o := by
  have hnot : ¬ l.Knows r := by simp [Linkage.Knows, hlookup]
  refine ⟨List.nodup_cons.mpr ⟨fun hr => ?_, h.nodup⟩, fun s hs => ?_, fun ho s => ?_⟩
  · exact h.fresh r hr (Linkage.knows_follow_iff.mpr (Or.inl rfl))
  · rcases List.mem_cons.mp hs with rfl | hs
    · exact hnot
    · exact fun hk => h.fresh s hs (Linkage.knows_follow_iff.mpr (Or.inr hk))
  · rw [h.known ho, Linkage.knows_follow_iff, List.mem_cons]
    tauto

end Traced

/-- **No run follows a reference twice**, by induction on the run. -/
theorem Run.traced {ds : List Demand} {l : Linkage} {followed : List String} {o : Outcome}
    (h : Run root validateFormats ds l followed o) : Traced l followed o := by
  induction h with
  | nil l =>
      refine .nothing fun ho => ?_
      obtain ⟨-, rfl⟩ := Prod.mk.inj (Except.ok.inj ho)
      rfl
  | fault | unresolved => exact .nothing fun ho => absurd ho (by simp)
  | constant _ ih => exact .of_references (ih.prepend _) rfl
  | function _ _ ihbody ihrest => exact .of_references ((ihbody.append rfl (ihrest.of_references rfl)).prepend _) rfl
  | functionFault _ ihbody => exact ihbody.of_references rfl
  | known _ _ ih => exact ih.prepend _
  | followed hlookup _ _ _ ihbody ihrest => exact ((ihbody.follow hlookup).append rfl (ihrest.of_references rfl)).prepend _
  | followedFault hlookup _ _ ihbody => exact ihbody.follow hlookup

/-- A run leaves no more references without a function than there were. -/
theorem Run.missing_le {ds : List Demand} {l l' : Linkage} {followed : List String} {ns : List Nat}
    (h : Run root validateFormats ds l followed (.ok (ns, l'))) (refs : List String) :
    l'.missing refs ≤ l.missing refs := by
  refine List.countP_mono_left fun r _ hr => ?_
  have hkept := (h.traced.known rfl r).mpr.comp Or.inl
  unfold Linkage.Knows at hkept
  cases hlookup : l.references.lookup r with
  | none => rfl
  | some n =>
      rw [Option.isNone_iff_eq_none.mp hr, hlookup] at hkept
      exact absurd (hkept rfl) (by simp)

/-- Some references are all that is followed from a document. -/
def ClosedUnder (root : Json) (refs : List String) : Prop :=
  ∀ r ∈ refs, ∀ target, resolveLocal? root r = some target → target.references ⊆ refs

/-- All references that a demand can come to are among some. -/
def Demand.Among (refs : List String) : Demand → Prop
  | .function schema _ => schema.references ⊆ refs
  | .reference r => r ∈ refs
  | .constant _ | .fault _ => True

theorem among_of_mem_body {refs : List String} {schema : Json} {location : String}
    (h : schema.references ⊆ refs) {d : Demand} (hd : d ∈ (body validateFormats schema location).demands) :
    d.Among refs := by
  have hpart := body_within validateFormats schema location d hd
  cases d with
  | function sub at' => exact List.Subset.trans (Json.Inside.references_subset hpart) h
  | reference r => exact h hpart
  | constant value => exact trivial
  | fault f => exact trivial

/-- Only references of the document are followed. -/
theorem Run.followed_subset {refs : List String} (hclosed : ClosedUnder root refs) {ds : List Demand} {l : Linkage}
    {followed : List String} {o : Outcome} (h : Run root validateFormats ds l followed o)
    (hds : ∀ d ∈ ds, d.Among refs) : followed ⊆ refs := by
  induction h with
  | nil | fault | unresolved => exact List.nil_subset _
  | constant _ ih => exact ih fun d hd => hds d (List.mem_cons_of_mem _ hd)
  | known _ _ ih => exact ih fun d hd => hds d (List.mem_cons_of_mem _ hd)
  | function _ _ ihbody ihrest =>
      have hschema := hds _ List.mem_cons_self
      exact List.append_subset.mpr ⟨ihbody fun d hd => among_of_mem_body hschema hd,
        ihrest fun d hd => hds d (List.mem_cons_of_mem _ hd)⟩
  | functionFault _ ihbody => exact ihbody fun d hd => among_of_mem_body (hds _ List.mem_cons_self) hd
  | followed _ htarget _ _ ihbody ihrest =>
      have hr := hds _ List.mem_cons_self
      exact List.append_subset.mpr ⟨List.cons_subset.mpr
        ⟨hr, ihbody fun d hd => among_of_mem_body (hclosed _ hr _ htarget) hd⟩,
        ihrest fun d hd => hds d (List.mem_cons_of_mem _ hd)⟩
  | followedFault _ htarget _ ihbody =>
      have hr := hds _ List.mem_cons_self
      exact List.cons_subset.mpr ⟨hr, ihbody fun d hd => among_of_mem_body (hclosed _ hr _ htarget) hd⟩

/-! ## Runs put together -/

theorem Run.nil_inv {l : Linkage} {followed : List String} {o : Outcome}
    (h : Run root validateFormats [] l followed o) : followed = [] ∧ o = .ok ([], l) := by
  cases h
  exact ⟨rfl, rfl⟩

/-- A demand that is met, before others. -/
theorem Run.before {d : Demand} {rest : List Demand} {l l₁ : Linkage} {n : Nat} {first after : List String}
    {o o' : Outcome} (hfirst : Run root validateFormats [d] l first o) (ho : o = .ok ([n], l₁))
    (hrest : Run root validateFormats rest l₁ after o') :
    Run root validateFormats (d :: rest) l (first ++ after) (prepend n o') := by
  cases hfirst with
  | fault | functionFault | unresolved | followedFault => exact absurd ho (by simp)
  | constant hnil =>
      obtain ⟨rfl, rfl⟩ := hnil.nil_inv
      obtain ⟨hn, rfl⟩ := Prod.mk.inj (Except.ok.inj ho)
      obtain rfl := List.head_eq_of_cons_eq hn
      exact .constant hrest
  | function hbody hnil =>
      obtain ⟨rfl, rfl⟩ := hnil.nil_inv
      obtain ⟨hn, rfl⟩ := Prod.mk.inj (Except.ok.inj ho)
      obtain rfl := List.head_eq_of_cons_eq hn
      rw [List.append_nil]
      exact .function hbody hrest
  | known hlookup hnil =>
      obtain ⟨rfl, rfl⟩ := hnil.nil_inv
      obtain ⟨hn, rfl⟩ := Prod.mk.inj (Except.ok.inj ho)
      obtain rfl := List.head_eq_of_cons_eq hn
      exact .known hlookup hrest
  | followed hlookup htarget hbody hnil =>
      obtain ⟨rfl, rfl⟩ := hnil.nil_inv
      obtain ⟨hn, rfl⟩ := Prod.mk.inj (Except.ok.inj ho)
      obtain rfl := List.head_eq_of_cons_eq hn
      rw [List.append_nil]
      exact .followed hlookup htarget hbody hrest

/-- A demand that ends in a fault, before others. -/
theorem Run.faultBefore {d : Demand} {l : Linkage} {first : List String} {f : Fault} {o : Outcome}
    (hfirst : Run root validateFormats [d] l first o) (ho : o = .error f) (rest : List Demand) :
    Run root validateFormats (d :: rest) l first (.error f) := by
  cases hfirst with
  | fault =>
      obtain rfl := Except.error.inj ho
      exact .fault _ _ _
  | functionFault hbody =>
      obtain rfl := Except.error.inj ho
      exact .functionFault hbody
  | unresolved hlookup htarget =>
      obtain rfl := Except.error.inj ho
      exact .unresolved hlookup htarget
  | followedFault hlookup htarget hbody =>
      obtain rfl := Except.error.inj ho
      exact .followedFault hlookup htarget hbody
  | constant hnil | function _ hnil | known _ hnil | followed _ _ _ hnil =>
      obtain ⟨rfl, rfl⟩ := hnil.nil_inv
      exact absurd ho (by simp [prepend, Except.map])

/-! ## Linking as a run -/

/-- What meets a demand is a run, as long as no more than `n` references lack a function. -/
def MeetsRun (root : Json) (validateFormats : Bool) (refs : List String) (n : Nat)
    (meet : Demand → Linkage → Linked Nat) (d : Demand) : Prop :=
  ∀ l, l.missing refs ≤ n → ∃ followed, Run root validateFormats [d] l followed (single (meet d l))

theorem meetAll_cons_of_ok {meet : Demand → Linkage → Linked Nat} {d : Demand} {l l₁ : Linkage} {n : Nat}
    (h : meet d l = .ok (n, l₁)) (rest : List Demand) :
    meetAll meet (d :: rest) l = prepend n (meetAll meet rest l₁) := by
  have hstep : meetAll meet (d :: rest) l
      = (meet d l).bind fun r => (meetAll meet rest r.2).bind fun s => .ok (r.1 :: s.1, s.2) := rfl
  rw [hstep, h]
  show (meetAll meet rest l₁).bind _ = _
  cases meetAll meet rest l₁ <;> rfl

theorem meetAll_cons_of_error {meet : Demand → Linkage → Linked Nat} {d : Demand} {l : Linkage} {f : Fault}
    (h : meet d l = .error f) (rest : List Demand) : meetAll meet (d :: rest) l = .error f := by
  unfold meetAll
  rw [h]
  rfl

theorem run_of_meetAll {refs : List String} {n : Nat} {meet : Demand → Linkage → Linked Nat} :
    ∀ {ds : List Demand}, (∀ d ∈ ds, MeetsRun root validateFormats refs n meet d) →
      ∀ l, l.missing refs ≤ n → ∃ followed, Run root validateFormats ds l followed (meetAll meet ds l)
  | [], _, l, _ => ⟨[], .nil l⟩
  | d :: rest, h, l, hl => by
      obtain ⟨first, hfirst⟩ := h d List.mem_cons_self l hl
      cases hmeet : meet d l with
      | error f =>
          rw [hmeet] at hfirst
          rw [meetAll_cons_of_error hmeet]
          exact ⟨first, hfirst.faultBefore rfl rest⟩
      | ok r =>
          obtain ⟨m, l₁⟩ := r
          rw [hmeet] at hfirst
          have hfirst : Run root validateFormats [d] l first (.ok ([m], l₁)) := hfirst
          obtain ⟨after, hrest⟩ := run_of_meetAll (fun e he => h e (List.mem_cons_of_mem d he)) l₁
            (Nat.le_trans (hfirst.missing_le refs) hl)
          rw [meetAll_cons_of_ok hmeet]
          exact ⟨first ++ after, hfirst.before rfl hrest⟩

/-- The function that is written when the demands of its body are met. -/
theorem run_of_writeFunction {refs : List String} {n : Nat} {meet : Demand → Linkage → Linked Nat} {schema : Json}
    {location : String} (h : ∀ d ∈ (body validateFormats schema location).demands,
      MeetsRun root validateFormats refs n meet d) (k : Nat) {l : Linkage} (hl : l.missing refs ≤ n) :
    (∃ followed ms l₁, Run root validateFormats (body validateFormats schema location).demands l followed (.ok (ms, l₁))
      ∧ writeFunction validateFormats meet k schema location l
        = .ok (k, l₁.write validateFormats k schema location ms))
    ∨ ∃ followed f, Run root validateFormats (body validateFormats schema location).demands l followed (.error f)
      ∧ writeFunction validateFormats meet k schema location l = .error f := by
  obtain ⟨followed, hrun⟩ := run_of_meetAll h l hl
  unfold writeFunction
  cases hall : meetAll meet (body validateFormats schema location).demands l with
  | error f =>
      rw [hall] at hrun
      exact Or.inr ⟨followed, f, hrun, by simp only [hall]; rfl⟩
  | ok r =>
      rw [hall] at hrun
      exact Or.inl ⟨followed, r.1, r.2, hrun, by simp only [hall]; rfl⟩

/-- The demands of a schema are runs when its parts, which are lower, and its references are. -/
theorem run_of_meetDemand {refs : List String} {n : Nat} {function : Json → String → Linkage → Linked Nat}
    {reference : String → Linkage → Linked Nat} {schema : Json} {location : String}
    (hschema : schema.references ⊆ refs)
    (hreference : ∀ r ∈ refs, MeetsRun root validateFormats refs n (meetDemand function reference) (.reference r))
    (hfunction : ∀ sub at', sub.references ⊆ refs → sub.height < schema.height →
      MeetsRun root validateFormats refs n (meetDemand function reference) (.function sub at'))
    {d : Demand} (hd : d ∈ (body validateFormats schema location).demands) :
    MeetsRun root validateFormats refs n (meetDemand function reference) d := by
  have hamong := among_of_mem_body hschema hd
  have hpart := body_within validateFormats schema location d hd
  cases d with
  | constant value => exact fun l _ => ⟨[], .constant (.nil _)⟩
  | fault f => exact fun l _ => ⟨[], .fault f [] l⟩
  | function sub at' => exact hfunction sub at' hamong (Json.Inside.height_lt hpart)
  | reference r => exact hreference r hamong

/-- A function for a part of a schema that is written, as a run. -/
theorem run_function_of_writeFunction {refs : List String} {n : Nat} {meet : Demand → Linkage → Linked Nat}
    {schema : Json} {location : String} (h : ∀ d ∈ (body validateFormats schema location).demands,
      MeetsRun root validateFormats refs n meet d) {l : Linkage} (hl : l.missing refs ≤ n) :
    ∃ followed, Run root validateFormats [.function schema location] l followed
      (single (writeFunction validateFormats meet l.reserve.1 schema location l.reserve.2)) := by
  have hreserved : l.reserve.2.missing refs ≤ n := hl
  obtain ⟨followed, ms, l₁, hrun, heq⟩ | ⟨followed, f, hrun, heq⟩ := run_of_writeFunction h l.reserve.1 hreserved
  · rw [heq]
    exact ⟨followed ++ [], .function hrun (.nil _)⟩
  · rw [heq]
    exact ⟨followed, .functionFault hrun⟩

/-- **Parts of a schema**, by induction on the height that is left. -/
theorem run_of_linkPart {refs : List String} {n : Nat} {reference : String → Linkage → Linked Nat}
    (hreference : ∀ r ∈ refs, ∀ l, l.missing refs ≤ n →
      ∃ followed, Run root validateFormats [.reference r] l followed (single (reference r l))) :
    ∀ (height : Nat) (schema : Json) (location : String) (l : Linkage), schema.height ≤ height →
      schema.references ⊆ refs → l.missing refs ≤ n → ∃ followed, Run root validateFormats
        [.function schema location] l followed (single (linkPart validateFormats reference height schema location l))
  | 0, _, _, _, hheight, hschema, hl => by
      refine run_function_of_writeFunction (fun _ hd => run_of_meetDemand hschema hreference ?_ hd) hl
      -- at the bottom there is no part to go down to
      exact fun _ _ _ hlt => absurd hlt (by omega)
  | height + 1, _, _, _, hheight, hschema, hl => by
      refine run_function_of_writeFunction (fun _ hd => run_of_meetDemand hschema hreference ?_ hd) hl
      exact fun sub at' hsub hlt l hl => run_of_linkPart hreference height sub at' l (by omega) hsub hl

/-- **References**, by induction on the bound.  Each step down gives one missing reference its function. -/
theorem run_of_linkReference {refs : List String} (hclosed : ClosedUnder root refs) :
    ∀ (n : Nat) (r : String), r ∈ refs → ∀ l, l.missing refs ≤ n → ∃ followed,
      Run root validateFormats [.reference r] l followed (single (linkReference root validateFormats n r l)) := by
  intro n
  induction n with
  | zero =>
      intro r hr l hl
      unfold linkReference
      cases hlookup : l.references.lookup r with
      | some k => exact ⟨[], .known hlookup (.nil _)⟩
      | none =>
          have hlt := Linkage.missing_cons_lt 0 hr hlookup
          omega
  | succ n ih =>
      intro r hr l hl
      unfold linkReference
      cases hlookup : l.references.lookup r with
      | some k => exact ⟨[], .known hlookup (.nil _)⟩
      | none =>
          cases htarget : resolveLocal? root r with
          | none => exact ⟨[], .unresolved hlookup htarget⟩
          | some target =>
              have hfollow : (l.follow r).missing refs ≤ n := by
                have hlt := Linkage.missing_cons_lt l.functions.length hr hlookup
                have hcongr : (l.follow r).missing refs
                    = ({ l with references := (r, l.functions.length) :: l.references } : Linkage).missing refs :=
                  Linkage.missing_congr rfl
                omega
              have hbody : ∀ d ∈ (body validateFormats target r).demands, MeetsRun root validateFormats refs n
                  (meetDemand (linkPart validateFormats (linkReference root validateFormats n) target.height)
                    (linkReference root validateFormats n)) d := by
                refine fun d hd => run_of_meetDemand (hclosed r hr target htarget) ih ?_ hd
                exact fun sub at' hsub hlt l hl => run_of_linkPart ih target.height sub at' l (by omega) hsub hl
              obtain ⟨followed, ms, l₁, hrun, heq⟩ | ⟨followed, f, hrun, heq⟩ :=
                run_of_writeFunction hbody l.reserve.1 hfollow
              · refine ⟨r :: followed ++ [], ?_⟩
                have heq := congrArg single heq
                exact heq ▸ .followed hlookup htarget hrun (.nil _)
              · refine ⟨r :: followed, ?_⟩
                have heq := congrArg single heq
                exact heq ▸ .followedFault hlookup htarget hrun

end Running

/-! ## Modules -/

theorem Emits.unique {root : Json} {validateFormats : Bool} {pointer : String} {followed followed' : List String}
    {outcome outcome' : Except Fault String} (h : Emits root validateFormats pointer followed outcome)
    (h' : Emits root validateFormats pointer followed' outcome') : followed = followed' ∧ outcome = outcome' := by
  cases h with
  | text h =>
      cases h' with
      | text h' =>
          obtain ⟨rfl, hsame⟩ := h.unique h'
          obtain ⟨hn, rfl⟩ := Prod.mk.inj (Except.ok.inj hsame)
          obtain rfl := List.head_eq_of_cons_eq hn
          exact ⟨rfl, rfl⟩
      | fault h' => exact absurd (h.unique h').2 (by simp)
  | fault h =>
      cases h' with
      | text h' => exact absurd (h.unique h').2 (by simp)
      | fault h' =>
          obtain ⟨rfl, hsame⟩ := h.unique h'
          obtain rfl := Except.error.inj hsame
          exact ⟨rfl, rfl⟩

/-- All references of a document, with one to begin with. -/
theorem closedUnder_references (root : Json) (pointer : String) :
    ClosedUnder root (pointer :: root.references) := by
  intro r _ target htarget
  refine List.subset_cons_of_subset _ ?_
  rcases Json.inside_of_resolveLocal? htarget with rfl | hinside
  · exact List.Subset.refl _
  · exact hinside.references_subset

/-- **Emission ends for every document and pointer**, with the text or fault of `source`, however the references
go round.  There is one run; in it no reference has its body written twice, and no reference that does not stand
in the document, save the pointer. -/
theorem emission_terminates (root : Json) (validateFormats : Bool) (pointer : String) :
    ∃ followed : List String, followed.Nodup ∧ followed ⊆ pointer :: root.references
      ∧ ∀ followed' outcome, Emits root validateFormats pointer followed' outcome
        ↔ followed' = followed ∧ outcome = source root validateFormats pointer := by
  have hmissing : ({} : Linkage).missing (pointer :: root.references) ≤ root.references.length + 1 :=
    List.countP_le_length
  have hclosed := closedUnder_references root pointer
  obtain ⟨followed, hrun⟩ : ∃ followed, Run root validateFormats [.reference pointer] {} followed
      (single (link root validateFormats pointer)) :=
    run_of_linkReference hclosed _ pointer List.mem_cons_self {} hmissing
  have hemits : Emits root validateFormats pointer followed (source root validateFormats pointer) := by
    unfold source
    cases hlink : link root validateFormats pointer with
    | error f =>
        rw [hlink] at hrun
        exact .fault hrun
    | ok r =>
        rw [hlink] at hrun
        exact .text hrun
  refine ⟨followed, hrun.traced.nodup, hrun.followed_subset hclosed (by simp [Demand.Among]),
    fun followed' outcome => ⟨fun h => h.unique hemits, ?_⟩⟩
  rintro ⟨rfl, rfl⟩
  exact hemits

end DecoderForge.Standalone
