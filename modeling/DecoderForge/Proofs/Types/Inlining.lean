import DecoderForge.Proofs.Types.Asked
import DecoderForge.Proofs.Types.Reachable

/-!
# DecoderForge — references that are written out in place

Types are computed under two bounds, one on the height of schemas and one on the references that are written
out within one another.  Here compilation is described with the second alone, which is part of it, faults
included.  For every schema there is exactly one such run, so that compilation ends however the references
go round.

The measure is twofold.  A part of a schema is lower than the schema; a reference that is written out leaves
one fewer to be written out inside it, and may lead anywhere.

## The architecture

* **`Scope.Compiles`** — a type, or a fault, at some depth of references; **`Scope.Compiles.unique`** and
  **`Scope.compiles_typeAt`** — there is one, and it is the one that is computed.
* **`Scope.Leads`** — the references that are written out on the way from a schema to another.
* **`Scope.Compiles.reaches`** — a type is written through at most so many references.
* **`Scope.Compiles.nested`** — where references are nested too deep.
* **`compile_terminates`** — all declarations of a schema.
-/

namespace DecoderForge.Types

/-! ## Runs -/

/-- A schema is a reference that is written out in place: neither to the whole nor to a definition. -/
def Scope.Inlines (scope : Scope) (s : Json) (r : String) : Prop :=
  s.get? "$ref" = some (.str r) ∧ r ≠ "#" ∧ scope.names.lookup r = none

/-- What the type of a schema comes to inside so many references that are written out: with the hint on the
schema itself, or without it. -/
inductive Scope.Compiles (scope : Scope) : Bool → Nat → Json → Result → Prop where
  /-- A hint stands for the schema. -/
  | hint {depth : Nat} {s : Json} {text : String} (h : s.getString? typeHintKey = some text) :
      Scope.Compiles scope true depth s (.ok (.ofString text))
  | noHint {depth : Nat} {s : Json} {x : Result} (h : s.getString? typeHintKey = none)
      (hx : Scope.Compiles scope false depth s x) : Scope.Compiles scope true depth s x
  /-- What is no reference is made from the schemas that it asks for, at the same depth. -/
  | own {depth : Nat} {s : Json} {rec : Json → Result} (h : s.get? "$ref" = none)
      (hrec : ∀ t ∈ asked s, Scope.Compiles scope true depth t (rec t)) :
      Scope.Compiles scope false depth s (ownType scope.style rec s)
  | noString {depth : Nat} {s v : Json} (h : s.get? "$ref" = some v) (hv : ∀ r, v ≠ .str r) :
      Scope.Compiles scope false depth s (.error .referenceNoString)
  | whole {depth : Nat} {s : Json} (h : s.get? "$ref" = some (.str "#")) :
      Scope.Compiles scope false depth s (.ok .unknown)
  | named {depth : Nat} {s : Json} {r name : String} (h : s.get? "$ref" = some (.str r)) (hne : r ≠ "#")
      (hname : scope.names.lookup r = some name) :
      Scope.Compiles scope false depth s (.ok (.ofString name))
  | tooDeep {depth : Nat} {s : Json} {r : String} (h : scope.Inlines s r) (hdepth : maxInline ≤ depth) :
      Scope.Compiles scope false depth s (.error (.tooDeep r))
  | unresolved {depth : Nat} {s : Json} {r : String} (h : scope.Inlines s r) (hdepth : depth < maxInline)
      (hnone : resolveLocal? scope.root r = none) :
      Scope.Compiles scope false depth s (.error (.unresolved r))
  /-- A reference is as its target, one deeper. -/
  | inlined {depth : Nat} {s t : Json} {r : String} {x : Result} (h : scope.Inlines s r)
      (hdepth : depth < maxInline) (htarget : resolveLocal? scope.root r = some t)
      (hx : Scope.Compiles scope true (depth + 1) t x) : Scope.Compiles scope false depth s x

namespace Scope

variable {scope : Scope}

namespace Compiles

variable {depth : Nat} {s t : Json} {x : Result}

/-! ## Inversion -/

theorem of_noHint (h : scope.Compiles true depth s x) (hnone : s.getString? typeHintKey = none) :
    scope.Compiles false depth s x := by
  cases h with
  | hint hsome => exact absurd (hnone.symm.trans hsome) (by simp)
  | noHint _ hx => exact hx

theorem of_own (h : scope.Compiles false depth s x) (hnone : s.get? "$ref" = none) :
    ∃ rec, (∀ t ∈ asked s, scope.Compiles true depth t (rec t)) ∧ x = ownType scope.style rec s := by
  cases h with
  | own _ hrec => exact ⟨_, hrec, rfl⟩
  | noString hsome _ | whole hsome | named hsome _ _ => exact absurd (hnone.symm.trans hsome) (by simp)
  | tooDeep hinlines _ | unresolved hinlines _ _ | inlined hinlines _ _ _ =>
      exact absurd (hnone.symm.trans hinlines.1) (by simp)

/-- **What becomes of a reference that is written out.** -/
theorem of_inlines {r : String} (h : scope.Compiles false depth s x) (hinlines : scope.Inlines s r) :
    maxInline ≤ depth ∧ x = .error (.tooDeep r)
      ∨ depth < maxInline ∧ resolveLocal? scope.root r = none ∧ x = .error (.unresolved r)
      ∨ depth < maxInline
        ∧ ∃ t, resolveLocal? scope.root r = some t ∧ scope.Compiles true (depth + 1) t x := by
  obtain ⟨href, hne, hnone⟩ := hinlines
  have hsame {r' : String} (h' : s.get? "$ref" = some (.str r')) : r' = r := by
    simpa using h'.symm.trans href
  cases h with
  | own hno _ => exact absurd (hno.symm.trans href) (by simp)
  | noString hsome hv => exact absurd (Option.some.inj (hsome.symm.trans href)) (hv r)
  | whole hwhole => exact absurd (hsame hwhole).symm hne
  | named h' _ hname =>
      obtain rfl := hsame h'
      exact absurd (hnone.symm.trans hname) (by simp)
  | tooDeep h' hdepth =>
      obtain rfl := hsame h'.1
      exact .inl ⟨hdepth, rfl⟩
  | unresolved h' hdepth hresolve =>
      obtain rfl := hsame h'.1
      exact .inr (.inl ⟨hdepth, hresolve, rfl⟩)
  | inlined h' hdepth htarget hx =>
      obtain rfl := hsame h'.1
      exact .inr (.inr ⟨hdepth, _, htarget, hx⟩)

end Compiles

/-! ## The result that is computed -/

/-- The type of a schema inside so many references that are written out. -/
def typeAt (scope : Scope) (hints : Bool) (depth : Nat) (s : Json) : Result :=
  let rest := typeOf scope.style (scope.reference (maxInline - depth)) fun t =>
    levels scope.style (scope.reference (maxInline - depth)) t.height t
  if hints then hinted rest s else rest s

theorem hinted_congr {rest rest' : Json → Result} {s : Json} (h : rest s = rest' s) :
    hinted rest s = hinted rest' s := by
  unfold hinted
  rw [h]

/-- **The bound on the height does not show.** -/
theorem levels_of_height_le {style : Style} {reference : String → Result} (fuel : Nat) :
    ∀ {s : Json}, s.height ≤ fuel → levels style reference fuel s
      = hinted (typeOf style reference fun t => levels style reference t.height t) s := by
  induction fuel using Nat.strongRecOn with
  | _ fuel ih =>
      intro s hs
      have hlower {t : Json} (ht : t ∈ asked s) : t.height < fuel :=
        Nat.lt_of_lt_of_le (part_of_mem_asked ht).inside.height_lt hs
      cases fuel with
      | zero => exact hinted_congr (typeOf_congr fun t ht => absurd (hlower ht) (Nat.not_lt_zero _))
      | succ fuel =>
          refine hinted_congr (typeOf_congr fun t ht => ?_)
          have ht : t.height ≤ fuel := Nat.le_of_lt_succ (hlower ht)
          rw [ih fuel (Nat.lt_succ_self fuel) ht, ih t.height (Nat.lt_succ_of_le ht) (Nat.le_refl _)]

theorem typeAt_true (scope : Scope) (depth : Nat) (s : Json) :
    scope.typeAt true depth s = hinted (scope.typeAt false depth) s := rfl

theorem levels_eq_typeAt (scope : Scope) (depth : Nat) {fuel : Nat} {s : Json} (hs : s.height ≤ fuel) :
    levels scope.style (scope.reference (maxInline - depth)) fuel s = scope.typeAt true depth s :=
  levels_of_height_le fuel hs

/-- What is no reference is made from the schemas that it asks for. -/
theorem typeAt_own {depth : Nat} {s : Json} (h : s.get? "$ref" = none) :
    scope.typeAt false depth s = ownType scope.style (scope.typeAt true depth) s := by
  show typeOf _ _ _ s = _
  rw [typeOf_eq_ownType h]
  exact (asks_ownType scope.style h).congr fun t _ => levels_eq_typeAt scope depth (Nat.le_refl _)

/-- What is a reference is what the reference stands for. -/
theorem typeAt_reference {depth : Nat} {s : Json} {r : String} (h : s.get? "$ref" = some (.str r)) :
    scope.typeAt false depth s = scope.reference (maxInline - depth) r := by
  show typeOf _ _ _ s = _
  cases s with
  | obj members =>
      have hsome : Json.Members.get? members "$ref" = some (.str r) := h
      unfold typeOf
      simp only [hsome]
  | _ => exact absurd h (by simp [Json.get?])

theorem typeAt_noString {depth : Nat} {s v : Json} (h : s.get? "$ref" = some v) (hv : ∀ r, v ≠ .str r) :
    scope.typeAt false depth s = .error .referenceNoString := by
  show typeOf _ _ _ s = _
  cases s with
  | obj members =>
      have hsome : Json.Members.get? members "$ref" = some v := h
      unfold typeOf
      cases v with
      | str r => exact absurd rfl (hv r)
      | _ => simp only [hsome]
  | _ => exact absurd h (by simp [Json.get?])

theorem reference_whole (scope : Scope) (remaining : Nat) : scope.reference remaining "#" = .ok .unknown := by
  unfold Scope.reference
  rfl

theorem reference_tooDeep {r : String} (hne : r ≠ "#") (hnone : scope.names.lookup r = none) :
    scope.reference 0 r = .error (.tooDeep r) := by
  unfold Scope.reference
  simp [hne, hnone]

theorem reference_inlined {remaining : Nat} {r : String} (hne : r ≠ "#")
    (hnone : scope.names.lookup r = none) :
    scope.reference (remaining + 1) r = match resolveLocal? scope.root r with
      | none => .error (.unresolved r)
      | some t => levels scope.style (scope.reference remaining) t.height t := by
  rw [Scope.reference]
  cases resolveLocal? scope.root r <;> simp [hne, hnone]

/-- **A reference that is written out** is as its target, as long as none is too deep. -/
theorem typeAt_inlines {depth : Nat} {s : Json} {r : String} (h : scope.Inlines s r) :
    scope.typeAt false depth s =
      if maxInline ≤ depth then .error (.tooDeep r)
      else match resolveLocal? scope.root r with
        | none => .error (.unresolved r)
        | some t => scope.typeAt true (depth + 1) t := by
  obtain ⟨href, hne, hnone⟩ := h
  rw [typeAt_reference href]
  by_cases hdepth : maxInline ≤ depth
  · rw [if_pos hdepth, Nat.sub_eq_zero_of_le hdepth, reference_tooDeep hne hnone]
  · have hremaining : maxInline - depth = maxInline - (depth + 1) + 1 := by omega
    rw [if_neg hdepth, hremaining, reference_inlined hne hnone]
    cases resolveLocal? scope.root r with
    | none => rfl
    | some t => exact levels_eq_typeAt scope (depth + 1) (Nat.le_refl _)

/-- **There is no other result than the one that is computed.** -/
theorem Compiles.eq_typeAt {hints : Bool} {depth : Nat} {s : Json} {x : Result}
    (h : scope.Compiles hints depth s x) : x = scope.typeAt hints depth s := by
  induction h with
  | hint hsome =>
      rw [typeAt_true, hinted]
      simp only [hsome]
  | noHint hnone _ ih =>
      rw [typeAt_true, hinted]
      simp only [hnone]
      exact ih
  | own hnone _ ih =>
      rw [typeAt_own hnone]
      exact (asks_ownType scope.style hnone).congr ih
  | noString hsome hv => exact (typeAt_noString hsome hv).symm
  | whole href => rw [typeAt_reference href, reference_whole]
  | named href hne hname => rw [typeAt_reference href, reference_of_lookup hne hname]
  | tooDeep hinlines hdepth => rw [typeAt_inlines hinlines, if_pos hdepth]
  | unresolved hinlines hdepth hnone =>
      rw [typeAt_inlines hinlines, if_neg (Nat.not_le.mpr hdepth), hnone]
  | inlined hinlines hdepth htarget _ ih =>
      rw [typeAt_inlines hinlines, if_neg (Nat.not_le.mpr hdepth), htarget]
      exact ih

/-- **There is such a run.**  Inside a schema by its height, into the target of a reference by the depth
that is left. -/
theorem compiles_typeAt (scope : Scope) : ∀ (hints : Bool) (depth : Nat) (s : Json),
    scope.Compiles hints depth s (scope.typeAt hints depth s)
  | true, depth, s => by
      rw [typeAt_true, hinted]
      cases hhint : s.getString? typeHintKey with
      | some text => exact .hint hhint
      | none => exact .noHint hhint (compiles_typeAt scope false depth s)
  | false, depth, s => by
      cases href : s.get? "$ref" with
      | none =>
          rw [typeAt_own href]
          exact .own href fun t ht =>
            have := (part_of_mem_asked ht).inside.height_lt
            compiles_typeAt scope true depth t
      | some v =>
          by_cases hv : ∃ r, v = .str r
          · obtain ⟨r, rfl⟩ := hv
            by_cases hne : r = "#"
            · subst hne
              rw [typeAt_reference href, reference_whole]
              exact .whole href
            cases hname : scope.names.lookup r with
            | some name =>
                rw [typeAt_reference href, reference_of_lookup hne hname]
                exact .named href hne hname
            | none =>
                rw [typeAt_inlines ⟨href, hne, hname⟩]
                split
                · next hdepth => exact .tooDeep ⟨href, hne, hname⟩ hdepth
                · next hdepth =>
                  have hless : depth < maxInline := Nat.not_le.mp hdepth
                  split
                  · next hresolve => exact .unresolved ⟨href, hne, hname⟩ hless hresolve
                  · next t ht =>
                    exact .inlined ⟨href, hne, hname⟩ hless ht (compiles_typeAt scope true (depth + 1) t)
          · have hv : ∀ r, v ≠ .str r := fun r heq => hv ⟨r, heq⟩
            rw [typeAt_noString href hv]
            exact .noString href hv
  termination_by hints depth s => (maxInline - depth, s.height, hints.toNat)

/-! ## References within one another -/

/-- The references that are written out on the way from a schema to another, outermost first. -/
inductive Leads (scope : Scope) : Json → List String → Json → Prop where
  | refl (s : Json) : Leads scope s [] s
  | asked {s t u : Json} {refs : List String} (h : s.get? "$ref" = none) (ht : t ∈ asked s)
      (hhint : t.getString? typeHintKey = none) (hrest : Leads scope t refs u) : Leads scope s refs u
  | target {s t u : Json} {r : String} {refs : List String} (h : scope.Inlines s r)
      (ht : resolveLocal? scope.root r = some t) (hhint : t.getString? typeHintKey = none)
      (hrest : Leads scope t refs u) : Leads scope s (r :: refs) u

theorem Leads.trans {s t u : Json} {refs refs' : List String} (h : scope.Leads s refs t)
    (h' : scope.Leads t refs' u) : scope.Leads s (refs ++ refs') u := by
  induction h with
  | refl => exact h'
  | asked hnone ht hhint _ ih => exact .asked hnone ht hhint (ih h')
  | target hinlines ht hhint _ ih => exact .target hinlines ht hhint (ih h')

/-- A way round can be gone any number of times. -/
theorem Leads.round {t : Json} {refs : List String} (h : scope.Leads t refs t) :
    ∀ n : Nat, scope.Leads t (List.replicate n refs).flatten t
  | 0 => .refl t
  | n + 1 => by
      rw [List.replicate_succ, List.flatten_cons]
      exact h.trans (h.round n)

/-- **A type is written through all that leads on from its schema**, and through no more references than are
allowed. -/
theorem Compiles.reaches {s t : Json} {refs : List String} (h : scope.Leads s refs t) :
    ∀ {depth : Nat} {e : TypeExpr}, scope.Compiles false depth s (.ok e) → depth ≤ maxInline →
      depth + refs.length ≤ maxInline ∧ ∃ e', scope.Compiles false (depth + refs.length) t (.ok e') := by
  induction h with
  | refl s => exact fun hs hdepth => ⟨hdepth, _, hs⟩
  | asked hnone ht hhint _ ih =>
      intro depth e hs hdepth
      obtain ⟨rec, hrec, hown⟩ := hs.of_own hnone
      obtain ⟨e', he'⟩ := (asks_ownType scope.style hnone).answered hown.symm _ ht
      exact ih ((he' ▸ hrec _ ht).of_noHint hhint) hdepth
  | @target s t u r refs hinlines ht hhint _ ih =>
      intro depth e hs hdepth
      rcases hs.of_inlines hinlines with ⟨-, hfault⟩ | ⟨-, -, hfault⟩ | ⟨hless, t', ht', hx⟩
      · exact absurd hfault (by simp)
      · exact absurd hfault (by simp)
      · obtain rfl := Option.some.inj (ht.symm.trans ht')
        have hrest := ih (hx.of_noHint hhint) hless
        rwa [List.length_cons, Nat.add_comm refs.length 1, ← Nat.add_assoc]

/-- **Where references are nested too deep** a reference stands that is to be written out within as many
others as are allowed. -/
theorem Compiles.nested {hints : Bool} {depth : Nat} {s : Json} {x : Result}
    (h : scope.Compiles hints depth s x) :
    ∀ {r : String}, x = .error (.tooDeep r) → depth ≤ maxInline →
      (hints = true → s.getString? typeHintKey = none)
        ∧ ∃ refs t, scope.Leads s refs t ∧ scope.Inlines t r ∧ depth + refs.length = maxInline := by
  induction h with
  | hint _ => exact fun hx => absurd hx (by simp)
  | noHint hnone _ ih => exact fun hx hdepth => ⟨fun _ => hnone, (ih hx hdepth).2⟩
  | own hnone hrec ih =>
      intro r hx hdepth
      obtain ⟨t, ht, hfault⟩ := (asks_ownType scope.style hnone).tooDeep hx
      obtain ⟨hhint, refs, u, hleads, hinlines, hlength⟩ := ih t ht hfault hdepth
      exact ⟨nofun, refs, u, .asked hnone ht (hhint rfl) hleads, hinlines, hlength⟩
  | noString _ _ | whole _ | named _ _ _ | unresolved _ _ _ => exact fun hx => absurd hx (by simp)
  | @tooDeep depth s r' hinlines hdeep =>
      intro r hx hdepth
      obtain rfl : r' = r := by simpa using hx
      exact ⟨nofun, [], s, .refl s, hinlines, Nat.le_antisymm hdepth hdeep⟩
  | inlined hinlines hless htarget _ ih =>
      intro r hx _
      obtain ⟨hhint, refs, u, hleads, hlast, hlength⟩ := ih hx hless
      exact ⟨nofun, _, u, .target hinlines htarget (hhint rfl) hleads, hlast, by simp; omega⟩

/-- **A reference that leads round to itself has no type.** -/
theorem Compiles.not_ok_of_round {s t : Json} {refs around : List String} (h : scope.Leads s refs t)
    (hround : scope.Leads t around t) (hsome : around ≠ []) {e : TypeExpr} :
    ¬ scope.Compiles false 0 s (.ok e) := by
  intro hs
  obtain ⟨hbound, -⟩ := hs.reaches (h.trans (hround.round (maxInline + 1))) (Nat.zero_le _)
  have hlength : 1 ≤ around.length := List.length_pos_iff.mpr hsome
  have hlong : (maxInline + 1) * 1 ≤ (maxInline + 1) * around.length := Nat.mul_le_mul_left _ hlength
  simp only [List.length_append, List.length_flatten, List.map_replicate, List.sum_replicate_nat] at hbound
  omega

end Scope

/-! ## Declarations -/

/-- What the declaration of a schema comes to. -/
inductive Scope.DeclaresAs (scope : Scope) (options : Options) (name : String) (schema : Json) :
    Except Fault Declaration → Prop where
  | constEnum {members : List (String × String)} (h : constEnum? options schema = some members) :
      Scope.DeclaresAs scope options name schema (.ok ⟨name, docLines? schema, .constEnum members⟩)
  | interface {rec : Json → Result} (henum : constEnum? options schema = none)
      (h : isInterface schema = true) (hrec : ∀ t ∈ askedByObject schema, scope.Compiles true 0 t (rec t)) :
      Scope.DeclaresAs scope options name schema
        ((Types.objectType scope.style rec schema).map fun type => ⟨name, docLines? schema, .interface type⟩)
  | alias {x : Result} (henum : constEnum? options schema = none) (h : isInterface schema = false)
      (hx : scope.Compiles false 0 schema x) :
      Scope.DeclaresAs scope options name schema (x.map fun type => ⟨name, docLines? schema, .alias type⟩)

/-- What some declarations in order come to. -/
inductive Scope.DeclaresAll (scope : Scope) (options : Options) :
    List (String × Json) → Except Fault (List Declaration) → Prop where
  | nil : Scope.DeclaresAll scope options [] (.ok [])
  | fault {name : String} {s : Json} {rest : List (String × Json)} {f : Fault}
      (h : scope.DeclaresAs options name s (.error f)) :
      Scope.DeclaresAll scope options ((name, s) :: rest) (.error f)
  | cons {name : String} {s : Json} {rest : List (String × Json)} {d : Declaration}
      {x : Except Fault (List Declaration)} (h : scope.DeclaresAs options name s (.ok d))
      (hrest : Scope.DeclaresAll scope options rest x) :
      Scope.DeclaresAll scope options ((name, s) :: rest) (x.map (d :: ·))

/-- All that is declared, in order: the container, then the definitions that count. -/
def sourcesOf (options : Options) (rootName : String) (schema : Json) (named : List Definition) :
    List (String × Json) :=
  (rootName, container schema)
    :: (if options.unreachableDefinitions then named else keptOf schema named).map fun d => (d.name, d.schema)

/-- A schema with the names that references to its definitions stand for. -/
def scopeOf (options : Options) (schema : Json) (named : List Definition) : Scope :=
  ⟨schema, options.style, referenceNames named⟩

/-- What the declarations of a schema come to. -/
inductive Finishes (naming : Naming) (policy : CollisionPolicy) (options : Options) (rootName : String)
    (schema : Json) : Except Fault (List Declaration) → Prop where
  | unnamed {f : Fault} (h : definitionsOf naming policy schema = .error f) :
      Finishes naming policy options rootName schema (.error f)
  | named {named : List Definition} {x : Except Fault (List Declaration)}
      (h : definitionsOf naming policy schema = .ok named)
      (hx : (scopeOf options schema named).DeclaresAll options
        (sourcesOf options rootName schema named) x) :
      Finishes naming policy options rootName schema x

namespace Scope

variable {scope : Scope} {options : Options} {name : String} {schema : Json}

/-- **One declaration** comes to what is computed, and to nothing else. -/
theorem declaresAs_iff {x : Except Fault Declaration} :
    scope.DeclaresAs options name schema x ↔ x = declare scope options name schema := by
  have hexpr (t : Json) : scope.typeAt true 0 t = scope.expr t :=
    (levels_eq_typeAt scope 0 (Nat.le_refl _)).symm
  constructor
  · rintro (@⟨members, henum⟩ | @⟨rec, henum, hinterface, hrec⟩ | @⟨x, henum, hinterface, hx⟩) <;>
      unfold declare <;> rw [henum]
    · simp only [hinterface, if_true]
      refine congrArg _ ((asks_objectType scope.style).congr fun t ht => ?_)
      rw [(hrec t ht).eq_typeAt, hexpr]
    · simp only [hinterface, Bool.false_eq_true, if_false]
      rw [hx.eq_typeAt]
      rfl
  · rintro rfl
    unfold declare
    cases henum : constEnum? options schema with
    | some members => exact .constEnum henum
    | none =>
        cases hinterface : isInterface schema with
        | true => exact .interface henum hinterface fun t _ => hexpr t ▸ compiles_typeAt scope true 0 t
        | false => exact .alias henum hinterface (compiles_typeAt scope false 0 schema)

theorem declaresAll_iff : ∀ {sources : List (String × Json)} {x : Except Fault (List Declaration)},
    scope.DeclaresAll options sources x
      ↔ x = collect (fun p : String × Json => declare scope options p.1 p.2) sources
  | [], x => by
      constructor
      · rintro ⟨⟩
        rfl
      · rintro rfl
        exact .nil
  | (name, s) :: rest, x => by
      rw [collect]
      constructor
      · rintro (_ | hfault | ⟨hfirst, hrest⟩)
        · rw [← declaresAs_iff.mp hfault]
          rfl
        · rw [← declaresAs_iff.mp hfirst, declaresAll_iff.mp hrest]
          cases collect (fun p : String × Json => declare scope options p.1 p.2) rest <;> rfl
      · rintro rfl
        cases hfirst : declare scope options name s with
        | error f => exact .fault (declaresAs_iff.mpr hfirst.symm)
        | ok d =>
            have hrest := declaresAll_iff.mpr (Eq.refl (collect (fun p : String × Json =>
              declare scope options p.1 p.2) rest))
            have hall := DeclaresAll.cons (declaresAs_iff.mpr hfirst.symm) hrest
            revert hall
            cases collect (fun p : String × Json => declare scope options p.1 p.2) rest <;> exact id

/-- A schema that is declared by its type has a type if it has a declaration, and else the same fault. -/
theorem compiles_of_declare (name : String) (henum : constEnum? options schema = none) :
    ∃ x, scope.Compiles false 0 schema x
      ∧ (∀ f, declare scope options name schema = .error f → x = .error f)
      ∧ ∀ d, declare scope options name schema = .ok d → ∃ e, x = .ok e := by
  refine ⟨_, compiles_typeAt scope false 0 schema, ?_⟩
  have hrest : scope.exprWithoutHint schema = scope.typeAt false 0 schema := rfl
  unfold declare
  rw [henum, ← hrest]
  cases hinterface : isInterface schema with
  | false =>
      simp only [Bool.false_eq_true, if_false]
      cases scope.exprWithoutHint schema <;> simp [Except.map]
  | true =>
      have hnone := (absent_of_isInterface hinterface).1 "$ref" (by simp [noInterface])
      have hobject : scope.exprWithoutHint schema = (scope.objectType schema).map fun e =>
          (TypeExpr.union scope.style [e]).strip scope.style := by
        unfold exprWithoutHint
        rw [typeOf_eq_ownType hnone, ownType_of_isInterface scope.style scope.expr hinterface]
        rfl
      simp only [if_true, hobject]
      cases scope.objectType schema <;> simp [Except.map]

end Scope

section Whole

variable {naming : Naming} {policy : CollisionPolicy} {options : Options} {rootName : String} {schema : Json}

theorem collect_map {α β γ : Type} (f : β → Except Fault γ) (g : α → β) :
    ∀ l : List α, collect f (l.map g) = collect (fun a => f (g a)) l
  | [] => rfl
  | a :: rest => by rw [List.map_cons, collect, collect, collect_map f g rest]

/-- **What is compiled** is declared one schema after another. -/
theorem compile_eq_collect {named : List Definition} (h : definitionsOf naming policy schema = .ok named) :
    compile naming policy options rootName schema
      = collect (fun p : String × Json =>
          declare (scopeOf options schema named) options p.1 p.2)
        (sourcesOf options rootName schema named) := by
  unfold compile sourcesOf
  rw [h, collect, collect_map]
  rfl

/-- **Compilation** comes to what is computed, and to nothing else. -/
theorem finishes_iff {x : Except Fault (List Declaration)} :
    Finishes naming policy options rootName schema x ↔ x = compile naming policy options rootName schema := by
  cases hnamed : definitionsOf naming policy schema with
  | error f =>
      have hcompile : compile naming policy options rootName schema = .error f := by
        unfold compile
        rw [hnamed]
        rfl
      rw [hcompile]
      constructor
      · rintro (hf | ⟨hok, -⟩)
        · rw [Except.error.inj (hf.symm.trans hnamed)]
        · exact absurd (hok.symm.trans hnamed) (by simp)
      · rintro rfl
        exact .unnamed hnamed
  | ok named =>
      rw [compile_eq_collect hnamed, ← Scope.declaresAll_iff]
      constructor
      · rintro (hf | ⟨hok, hx⟩)
        · exact absurd (hf.symm.trans hnamed) (by simp)
        · obtain rfl := Except.ok.inj (hok.symm.trans hnamed)
          exact hx
      · exact .named hnamed

/-- The fault of results in a row is one of theirs. -/
theorem exists_of_collect_eq_error {α β : Type} {f : α → Except Fault β} {e : Fault} :
    ∀ {l : List α}, collect f l = .error e → ∃ a ∈ l, f a = .error e
  | [], h => absurd h (by simp [collect])
  | a :: rest, h => by
      rw [collect] at h
      cases hfirst : f a with
      | error e' =>
          rw [hfirst] at h
          obtain rfl := Except.error.inj h
          exact ⟨a, List.mem_cons_self, hfirst⟩
      | ok b =>
          cases hrest : collect f rest with
          | error e' =>
              simp only [hfirst, hrest, bind, Except.bind] at h
              obtain rfl := Except.error.inj h
              obtain ⟨a', ha', hfault⟩ := exists_of_collect_eq_error hrest
              exact ⟨a', List.mem_cons_of_mem a ha', hfault⟩
          | ok bs =>
              simp only [hfirst, hrest, bind, Except.bind] at h
              exact absurd h (by simp [pure, Except.pure])

/-- Names that cannot be given out are no references. -/
theorem ne_tooDeep_of_definitionsOf {f : Fault} (h : definitionsOf naming policy schema = .error f)
    (r : String) : f ≠ .tooDeep r := by
  unfold definitionsOf at h
  split at h
  · next ds _ =>
    cases hnamed : ds.enumerate naming policy with
    | error e =>
        rw [hnamed] at h
        obtain rfl := Except.error.inj h
        exact nofun
    | ok named =>
        rw [hnamed] at h
        exact absurd h (by simp [Except.mapError])
  · exact absurd h (by simp)

/-- The schemas whose types are written: all that are declared, but for constant enums. -/
def Typed (options : Options) (rootName : String) (schema : Json) (named : List Definition) (s : Json) : Prop :=
  (∃ name, (name, s) ∈ sourcesOf options rootName schema named) ∧ constEnum? options s = none

/-- **Compilation ends.**  For every schema there is exactly one run, and it comes to what is computed.  In it
references are written out within at most `maxInline` others: where a reference is reported as nested too deep,
it stands within so many, and where there are declarations, none leads on through more.  A reference that leads
round to itself and is reached from a schema that is declared ends in a fault. -/
theorem compile_terminates (naming : Naming) (policy : CollisionPolicy) (options : Options) (rootName : String)
    (schema : Json) :
    (∃! x, Finishes naming policy options rootName schema x)
      ∧ Finishes naming policy options rootName schema (compile naming policy options rootName schema)
      ∧ (∀ r, compile naming policy options rootName schema = .error (.tooDeep r) →
          ∃ named, definitionsOf naming policy schema = .ok named
            ∧ ∃ s, Typed options rootName schema named s
              ∧ ∃ refs t, (scopeOf options schema named).Leads s refs t
                ∧ (scopeOf options schema named).Inlines t r ∧ refs.length = maxInline)
      ∧ ∀ named, definitionsOf naming policy schema = .ok named → ∀ s, Typed options rootName schema named s →
          ∀ refs t, (scopeOf options schema named).Leads s refs t →
            (∀ ds, compile naming policy options rootName schema = .ok ds → refs.length ≤ maxInline)
              ∧ ∀ around, (scopeOf options schema named).Leads t around t → around ≠ [] →
                ∃ f, compile naming policy options rootName schema = .error f := by
  refine ⟨⟨_, finishes_iff.mpr rfl, fun x hx => finishes_iff.mp hx⟩, finishes_iff.mpr rfl, fun r hr => ?_,
    fun named hnamed s hs refs t hleads => ?_⟩
  · cases hnamed : definitionsOf naming policy schema with
    | error f =>
        unfold compile at hr
        rw [hnamed] at hr
        exact absurd (Except.error.inj hr) (ne_tooDeep_of_definitionsOf hnamed r)
    | ok named =>
        rw [compile_eq_collect hnamed] at hr
        obtain ⟨⟨name, s⟩, hs, hfault⟩ := exists_of_collect_eq_error hr
        have henum : constEnum? options s = none := by
          cases henum : constEnum? options s with
          | none => rfl
          | some members => exact absurd hfault (by simp [declare, henum])
        obtain ⟨x, hx, hsame, -⟩ := Scope.compiles_of_declare name henum
        obtain ⟨-, refs, t, hleads, hinlines, hlength⟩ := hx.nested (hsame _ hfault) (Nat.zero_le _)
        exact ⟨named, rfl, s, ⟨⟨name, hs⟩, henum⟩, refs, t, hleads, hinlines, by omega⟩
  · obtain ⟨⟨name, hmem⟩, henum⟩ := hs
    -- where there are declarations the schema has a type
    have htype (ds : List Declaration) (hds : compile naming policy options rootName schema = .ok ds) :
        ∃ e, (scopeOf options schema named).Compiles false 0 s (.ok e) := by
      rw [compile_eq_collect hnamed] at hds
      obtain ⟨d, -, hd⟩ := exists_of_collect hds (name, s) hmem
      obtain ⟨x, hx, -, hok⟩ := Scope.compiles_of_declare name henum
      obtain ⟨e, rfl⟩ := hok d hd
      exact ⟨e, hx⟩
    constructor
    · intro ds hds
      obtain ⟨e, he⟩ := htype ds hds
      simpa using (he.reaches hleads (Nat.zero_le _)).1
    · intro around hround hsome
      cases hcompile : compile naming policy options rootName schema with
      | error f => exact ⟨f, rfl⟩
      | ok ds =>
          obtain ⟨e, he⟩ := htype ds hcompile
          exact absurd he (Scope.Compiles.not_ok_of_round hleads hround hsome)

end Whole

/-- A reference to itself. -/
def roundReference : Json := .obj [("$ref", .str "#/properties/a")]

/-- A schema with a property that is a reference to itself. -/
def roundabout : Json := .obj [("properties", .obj [("a", roundReference)])]

theorem resolveLocal?_roundabout : resolveLocal? roundabout "#/properties/a" = some roundReference := by
  have hfragment : Pointer.unescapeFragment? "/properties/a".toList = some "/properties/a".toList :=
    Pointer.unescapeFragment?_of_notMem (by decide)
  have hself : ∀ {s : List Char}, '~' ∉ s → Pointer.unescapeToken s = s := fun h =>
    (Pointer.unescapeToken_eq_self_iff _).mpr
      ⟨fun hpair => h (hpair.subset List.mem_cons_self), fun hpair => h (hpair.subset List.mem_cons_self)⟩
  show (Pointer.unescapeFragment? "/properties/a".toList).bind roundabout.atPointer? = _
  rw [hfragment]
  show roundabout.descend? [Pointer.unescapeToken "properties".toList, Pointer.unescapeToken "a".toList] = _
  rw [hself (by decide), hself (by decide)]
  rfl

theorem reference_roundabout : ∀ remaining : Nat,
    (scopeOf {} roundabout []).reference remaining "#/properties/a" = .error (.tooDeep "#/properties/a")
  | 0 => Scope.reference_tooDeep (by decide) rfl
  | remaining + 1 => by
      rw [Scope.reference_inlined (by decide) rfl]
      show (match resolveLocal? roundabout "#/properties/a" with | none => _ | some t => _) = _
      rw [resolveLocal?_roundabout]
      exact reference_roundabout remaining

theorem compile_roundabout :
    compile {} .error {} "Root" roundabout = .error (.tooDeep "#/properties/a") := by
  have hexpr : (scopeOf {} roundabout []).expr roundReference = .error (.tooDeep "#/properties/a") :=
    reference_roundabout maxInline
  rw [compile_eq_collect rfl]
  show ((((scopeOf {} roundabout []).expr roundReference >>= _) >>= _) >>= _).map _ >>= _ = _
  rw [hexpr]
  rfl

/-- It has no definitions, and compilation ends where the reference stands within 32 others. -/
theorem compile_terminates_roundabout :
    compile {} .error {} "Root" roundabout = .error (.tooDeep "#/properties/a")
      ∧ (∃ s refs t, Typed {} "Root" roundabout [] s ∧ (scopeOf {} roundabout []).Leads s refs t
        ∧ (scopeOf {} roundabout []).Inlines t "#/properties/a" ∧ refs.length = 32)
      ∧ ∃ f, compile {} .error {} "Root" roundabout = .error f := by
  have hnamed : definitionsOf {} .error roundabout = .ok [] := rfl
  have htyped : Typed {} "Root" roundabout [] roundabout := ⟨⟨"Root", List.mem_cons_self⟩, rfl⟩
  have hinlines : (scopeOf {} roundabout []).Inlines roundReference "#/properties/a" := ⟨rfl, by decide, rfl⟩
  have hleads : (scopeOf {} roundabout []).Leads roundabout [] roundReference :=
    .asked rfl List.mem_cons_self rfl (.refl _)
  have hround : (scopeOf {} roundabout []).Leads roundReference ["#/properties/a"] roundReference :=
    .target hinlines resolveLocal?_roundabout rfl (.refl _)
  obtain ⟨-, -, hdeep, hreached⟩ := compile_terminates {} .error {} "Root" roundabout
  obtain ⟨named, hnamed', s, hs, refs, t, hway, hlast, hlength⟩ := hdeep _ compile_roundabout
  obtain rfl := Except.ok.inj (hnamed.symm.trans hnamed')
  exact ⟨compile_roundabout, ⟨s, refs, t, hs, hway, hlast, hlength⟩,
    (hreached [] hnamed roundabout htyped [] _ hleads).2 _ hround (by simp)⟩

end DecoderForge.Types
