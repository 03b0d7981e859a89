import DecoderForge.Proofs.Standalone.SchemaMeanings

/-!
# DecoderForge — keywords for properties mean what their code demands

The code goes through the properties that are named and then through all properties of a value, while the engine
reads the same keywords as one constraint or as several.

## The architecture

* **`Reader.LoopPasses`** — what is demanded of properties by pattern and of those that are left.
* **`…_means`** — one lemma per keyword, or group of keywords.
-/

namespace DecoderForge.Standalone

open Layout (Call)
open SchemaReading

/-! ## What is read of members -/

/-- The members of a keyword that may be absent. -/
def Site.members? (s : Site) (keyword : String) : Json.Members :=
  match s.get? keyword with
  | some (.obj ms) => ms
  | _ => []

theorem objectKeyword_eq {s : Site} {keyword : String} {ms : Json.Members} (hms : objectKeyword s keyword = .ok ms) :
    ms = s.members? keyword := by
  unfold objectKeyword at hms
  unfold Site.members?
  split at hms
  · next hget => rw [hget, Except.ok.inj hms]
  · next found hget => rw [hget, Except.ok.inj hms]
  · cases hms

namespace Reader

variable {E : Reader} {ms ps : Json.Members} {known : List (String × Constraint)}
  {patterned : List (Pattern.Node × Constraint)} {w : Json} {path : String}

/-- A row of constraints for a row of members. -/
def ReadsMembers (E : Reader) (ms : Json.Members) (known : List (String × Constraint)) : Prop :=
  List.Forall₂ (fun m k => k.1 = m.1 ∧ Meaning.read E.dialect m.2 = .ok k.2) ms known

/-- A row of constraints for a row of patterns. -/
def ReadsPatterns (E : Reader) (ps : Json.Members) (patterned : List (Pattern.Node × Constraint)) : Prop :=
  List.Forall₂ (fun m p => Pattern.read? m.1.toList = some p.1 ∧ Meaning.read E.dialect m.2 = .ok p.2) ps patterned

theorem readsMembers_of_members
    (h : (Part.named (ms.map fun m => (m.1, Meaning.read E.dialect m.2))).members = .ok known) :
    E.ReadsMembers ms known := by
  refine (List.forall₂_map_left_iff.mp (forall₂_of_mapM h)).imp fun m k hk => ?_
  obtain ⟨c, hc, rfl⟩ := map_eq_ok hk
  exact ⟨rfl, hc⟩

theorem readsPatterns_of_readPatterns {texts : Json.Members} (hms : E.ReadsMembers ps known)
    (h : readPatterns known texts = .ok patterned) : E.ReadsPatterns ps patterned := by
  induction hms generalizing patterned with
  | nil =>
      obtain rfl : [] = patterned := Except.ok.inj h
      exact .nil
  | cons hm _ ih =>
      rw [readPatterns] at h
      split at h
      · next node hnode =>
        obtain ⟨more, hmore, rfl⟩ := map_eq_ok h
        exact .cons ⟨hm.1 ▸ hnode, hm.2⟩ (ih hmore)
      · cases h

/-- What is demanded of a property that is left. -/
def AdditionalPasses (E : Reader) (known patterns : List String) (m : String × Json) (path : String) : Additional → Prop
  | .allowed => True
  | .forbidden => ¬ IsOther known patterns m.1
  | .checked u => IsOther known patterns m.1 → E.Accepts u m.2 (Issue.below path m.1)

/-- What is demanded of properties by pattern and of those that are left. -/
def LoopPasses (E : Reader) (known : List String) (ps : Json.Members) (additional : Additional) (w : Json)
    (path : String) : Prop :=
  ∀ members, w = .obj members → ∀ m ∈ members,
    (∀ p ∈ ps, Matches p.1 m.1 → E.Accepts p.2 m.2 (Issue.below path m.1))
      ∧ E.AdditionalPasses known (ps.map Prod.fst) m path additional

theorem ReadsMembers.map_fst (h : E.ReadsMembers ms known) : known.map Prod.fst = ms.map Prod.fst := by
  induction h with
  | nil => rfl
  | cons hm _ ih => rw [List.map_cons, List.map_cons, hm.1, ih]

theorem ReadsMembers.properties_iff (h : E.ReadsMembers ms known) :
    (Constraint.properties known).issues E.follow w path = []
      ↔ ∀ m ∈ ms, NamedPasses false (E.Accepts m.2) m.1 w path := by
  cases w with
  | obj members =>
      rw [Constraint.issues, Constraint.issuesOfProperties_eq_nil_iff]
      refine (forall_mem_iff_of_forall₂ (fun m k hread => ?_) h).symm
      simp [NamedPasses, hread.1, accepts_iff hread.2]
  | null | bool _ | num _ | str _ | arr _ => simp [Constraint.issues, NamedPasses]

/-- The constraints on named properties, for one property. -/
theorem ReadsMembers.single_iff (h : E.ReadsMembers ms known) {m : String × Json} :
    Constraint.issuesOfProperties E.follow known [m] path = []
      ↔ ∀ k ∈ ms, m.1 = k.1 → E.Accepts k.2 m.2 (Issue.below path k.1) := by
  rw [Constraint.issuesOfProperties_eq_nil_iff]
  refine (forall_mem_iff_of_forall₂ (fun k k' hread => ?_) h).symm
  have hget (name : String) (v : Json) : Json.Members.get? [m] name = some v ↔ m.1 = name ∧ m.2 = v := by
    unfold Json.Members.get?
    rw [List.lookup_cons, List.lookup_nil]
    by_cases hname : m.1 = name
    · simp [hname]
    · rw [beq_false_of_ne (Ne.symm hname)]
      simp [hname]
  simp [hget, hread.1, accepts_iff hread.2]

theorem ReadsPatterns.single_iff (h : E.ReadsPatterns ps patterned) {m : String × Json} :
    Constraint.issuesOfPatterns E.follow patterned [m] path = []
      ↔ ∀ p ∈ ps, Matches p.1 m.1 → E.Accepts p.2 m.2 (Issue.below path m.1) := by
  rw [Constraint.issuesOfPatterns_eq_nil_iff]
  refine (forall_mem_iff_of_forall₂ (fun p p' hread => ?_) h).symm
  simp [Matches, hread.1, accepts_iff hread.2]

theorem ReadsPatterns.patterns_iff (h : E.ReadsPatterns ps patterned) (names : List String) :
    (Constraint.patterns patterned).issues E.follow w path = [] ↔ E.LoopPasses names ps .allowed w path := by
  cases w with
  | obj members =>
      rw [Constraint.issues, Constraint.issuesOfPatterns_eq_nil_iff]
      have hswap : (∀ p ∈ patterned, ∀ m ∈ members, p.1.isFoundIn m.1 = true →
          p.2.issues E.follow m.2 (Issue.below path m.1) = [])
          ↔ ∀ p ∈ ps, ∀ m ∈ members, Matches p.1 m.1 → E.Accepts p.2 m.2 (Issue.below path m.1) := by
        refine (forall_mem_iff_of_forall₂ (fun p p' hread => ?_) h).symm
        simp [Matches, hread.1, accepts_iff hread.2]
      rw [hswap]
      simp only [LoopPasses, AdditionalPasses, and_true, Json.obj.injEq]
      exact ⟨by rintro hall _ rfl m hm p hp; exact hall p hp m hm, fun hall p hp m hm => hall _ rfl m hm p hp⟩
  | null | bool _ | num _ | str _ | arr _ => simp [Constraint.issues, LoopPasses]

theorem isOther_iff (hms : E.ReadsMembers ms known) (hps : E.ReadsPatterns ps patterned) (name : String) :
    Constraint.isOther known patterned name = true ↔ IsOther (ms.map Prod.fst) (ps.map Prod.fst) name := by
  have hknown : Constraint.isKnown known name = false ↔ name ∉ ms.map Prod.fst := by
    rw [← hms.map_fst]
    unfold Constraint.isKnown
    rw [List.any_eq_false]
    simp only [beq_iff_eq, List.mem_map, not_exists, not_and]
  have hpatterned : Constraint.isPatterned patterned name = false ↔ ∀ p ∈ ps, ¬ Matches p.1 name := by
    unfold Constraint.isPatterned
    rw [List.any_eq_false]
    refine (forall_mem_iff_of_forall₂ (fun p p' hread => ?_) hps).symm
    simp [Matches, hread.1]
  unfold Constraint.isOther IsOther
  rw [Bool.and_eq_true, Bool.not_eq_true', Bool.not_eq_true', hknown, hpatterned, List.forall_mem_map]

theorem onlyProperties_iff (hms : E.ReadsMembers ms known) (hps : E.ReadsPatterns ps patterned) :
    (Constraint.onlyProperties known patterned).issues E.follow w path = []
      ↔ (∀ m ∈ ms, NamedPasses true (E.Accepts m.2) m.1 w path)
        ∧ E.LoopPasses (ms.map Prod.fst) ps .forbidden w path := by
  cases w with
  | obj members =>
      have hothers : (if ((members.map Prod.fst).filter (Constraint.isOther known patterned)).isEmpty then []
          else [(⟨path, Constraint.additionalPropertiesFault
            ((members.map Prod.fst).filter (Constraint.isOther known patterned))⟩ : Issue)]) = []
          ↔ ∀ m ∈ members, ¬ IsOther (ms.map Prod.fst) (ps.map Prod.fst) m.1 := by
        simp [List.isEmpty_iff, List.filter_eq_nil_iff, ← isOther_iff hms hps]
      rw [Constraint.issues, List.append_eq_nil_iff, hothers, List.flatMap_eq_nil_iff]
      simp only [List.append_eq_nil_iff, hms.single_iff, hps.single_iff, NamedPasses, LoopPasses, AdditionalPasses,
        Json.obj.injEq, forall_eq', if_true]
      constructor
      · rintro ⟨hall, hnone⟩
        exact ⟨fun k hk m hm hname => (hall m hm).1 k hk hname, fun m hm => ⟨(hall m hm).2, hnone m hm⟩⟩
      · rintro ⟨hnamed, hloop⟩
        exact ⟨fun m hm => ⟨fun k hk hname => hnamed k hk m hm hname, (hloop m hm).1⟩, fun m hm => (hloop m hm).2⟩
  | null | bool _ | num _ | str _ | arr _ => simp [Constraint.issues, NamedPasses, LoopPasses]

theorem allProperties_iff (hms : E.ReadsMembers ms known) (hps : E.ReadsPatterns ps patterned) {u : Json}
    {c : Constraint} (hread : Meaning.read E.dialect u = .ok c) :
    (Constraint.allProperties known patterned c).issues E.follow w path = []
      ↔ (∀ m ∈ ms, NamedPasses true (E.Accepts m.2) m.1 w path)
        ∧ E.LoopPasses (ms.map Prod.fst) ps (.checked u) w path := by
  cases w with
  | obj members =>
      have hother (m : String × Json) : (if Constraint.isOther known patterned m.1 then
          c.issues E.follow m.2 (Issue.below path m.1) else []) = []
          ↔ (IsOther (ms.map Prod.fst) (ps.map Prod.fst) m.1 → E.Accepts u m.2 (Issue.below path m.1)) := by
        rw [← isOther_iff hms hps, accepts_iff hread]
        cases Constraint.isOther known patterned m.1 <;> simp
      rw [Constraint.issues, List.flatMap_eq_nil_iff]
      simp only [List.append_eq_nil_iff, hms.single_iff, hps.single_iff, hother, NamedPasses, LoopPasses,
        AdditionalPasses, Json.obj.injEq, forall_eq', if_true]
      constructor
      · intro hall
        exact ⟨fun k hk m hm hname => (hall m hm).1.1 k hk hname, fun m hm => ⟨(hall m hm).1.2, (hall m hm).2⟩⟩
      · rintro ⟨hnamed, hloop⟩ m hm
        exact ⟨⟨fun k hk hname => hnamed k hk m hm hname, (hloop m hm).1⟩, (hloop m hm).2⟩
  | null | bool _ | num _ | str _ | arr _ => simp [Constraint.issues, NamedPasses, LoopPasses]

theorem noProperties_iff :
    (Constraint.assert .noProperties).issues E.follow w path = [] ↔ E.LoopPasses [] [] .forbidden w path := by
  rw [Constraint.assert_eq_nil_iff]
  have hother (name : String) : IsOther [] [] name := ⟨by simp, by simp⟩
  cases w with
  | obj members =>
      cases members with
      | nil => simp [Assertion.faults, LoopPasses]
      | cons m rest =>
          refine iff_of_false (by simp [Assertion.faults]) fun hall => ?_
          exact (hall _ rfl m List.mem_cons_self).2 (hother m.1)
  | null | bool _ | num _ | str _ | arr _ => simp [Assertion.faults, LoopPasses]

end Reader

open Reader Piece

variable {E : Reader} {s : Site} {ruled : Bool}

/-! ## Named properties -/

theorem propertyPiece_means (m : String × Json) :
    (propertyPiece s m).Means E ruled false (NamedPasses ruled (E.Accepts m.2) m.1) := by
  refine means_ask (fun f => .property m.1 f) (fun _ => rfl) (fun _ => rfl) (fun _ _ => trivial)
    fun f (hf : E.Stands f m.2) w path => ?_
  simp only [Check.Passes, NamedPasses, hf.verdict]

/-! ## The loop -/

/-- A row of checks for a row of patterns. -/
def Reader.Tests (E : Reader) (ps : Json.Members) (tests : List PatternCheck) : Prop :=
  List.Forall₂ (fun p t => t.pattern = p.1 ∧ E.constants[t.constant]? = some (patternText t.pattern)
    ∧ E.Stands t.function p.2) ps tests

/-- What is done about properties that are left, as a schema has it. -/
inductive Reader.Treats (E : Reader) (known : List String) : Additional → Others → Prop where
  | allowed : E.Treats known .allowed .allowed
  | forbidden {c : Nat} (h : E.constants[c]? = some (knownText known)) : E.Treats known .forbidden (.forbidden c known)
  | checked {u : Json} {c f : Nat} (h : E.constants[c]? = some (knownText known)) (hf : E.Stands f u) :
    E.Treats known (.checked u) (.checked c known f)

/-- Numbers for patterns, two for each. -/
theorem exists_tests : ∀ {ps : Json.Members} {ns : List Nat},
    List.Forall₂ E.Meets (ps.flatMap fun p => [patternConstant p.1, s.part ("patternProperties/" ++ p.1) p.2]) ns →
      ∃ tests, E.Tests ps tests ∧ patternLines ns = tests.flatMap PatternCheck.calls
  | [], ns, hns => by
      cases hns
      exact ⟨[], .nil, rfl⟩
  | p :: rest, ns, hns => by
      rw [List.flatMap_cons] at hns
      cases hns with
      | @cons _ c _ _ hc hns => cases hns with
        | @cons _ f _ more hf hns =>
            obtain ⟨tests, htests, hlines⟩ := exists_tests hns
            refine ⟨⟨c, p.1, f⟩ :: tests, .cons ⟨rfl, hc, hf⟩ htests, ?_⟩
            rw [patternLines, hlines]
            rfl

/-- The numbers are dealt out in the order of the demands. -/
theorem exists_loop {known : List String} {ps : Json.Members} {additional : Additional} {names : Option Json}
    {ns : List Nat} (hns : List.Forall₂ E.Meets (loopDemands s known ps additional names) ns) :
    ∃ fs tests others, loopLines ps.length additional names.isSome ns = (Check.loop fs tests others).calls
      ∧ Option.Rel (fun u f => E.Stands f u) names fs ∧ E.Tests ps tests ∧ E.Treats known additional others := by
  unfold loopDemands at hns
  simp only [List.append_assoc] at hns
  have hfront : (ps.flatMap fun p => [patternConstant p.1, s.part ("patternProperties/" ++ p.1) p.2]).length
      = 2 * ps.length := by
    simp [List.length_flatMap, Nat.mul_comm]
  obtain ⟨tests, htests, hlines⟩ := exists_tests (List.forall₂_take_append ns _ _ hns.flip).flip
  have hafter := (List.forall₂_drop_append ns _ _ hns.flip).flip
  rw [hfront] at hlines hafter
  simp only [loopLines, hlines]
  generalize ns.drop (2 * ps.length) = after at hafter ⊢
  cases additional with
  | allowed => cases names with
    | none =>
        exact ⟨none, tests, .allowed, by simp [Check.calls, nameCalls, Others.calls], .none, htests, .allowed⟩
    | some u =>
        cases hafter with
        | @cons _ n _ _ hn hafter =>
            cases hafter
            exact ⟨some n, tests, .allowed, by simp [Check.calls, nameCalls, Others.calls], .some hn, htests, .allowed⟩
  | forbidden => cases names with
    | none =>
        cases hafter with
        | @cons _ c _ _ hc hafter =>
            cases hafter
            exact ⟨none, tests, .forbidden c known, by simp [Check.calls, nameCalls, Others.calls], .none, htests,
              .forbidden hc⟩
    | some u =>
        cases hafter with
        | @cons _ n _ _ hn hafter => cases hafter with
          | @cons _ c _ _ hc hafter =>
              cases hafter
              exact ⟨some n, tests, .forbidden c known, by simp [Check.calls, nameCalls, Others.calls], .some hn,
                htests, .forbidden hc⟩
  | checked u => cases names with
    | none =>
        cases hafter with
        | @cons _ f _ _ hf hafter => cases hafter with
          | @cons _ c _ _ hc hafter =>
              cases hafter
              exact ⟨none, tests, .checked c known f, by simp [Check.calls, nameCalls, Others.calls], .none, htests,
                .checked hc hf⟩
    | some u' =>
        cases hafter with
        | @cons _ f _ _ hf hafter => cases hafter with
          | @cons _ n _ _ hn hafter => cases hafter with
            | @cons _ c _ _ hc hafter =>
                cases hafter
                exact ⟨some n, tests, .checked c known f, by simp [Check.calls, nameCalls, Others.calls], .some hn,
                  htests, .checked hc hf⟩

/-- Whether properties that are left are not simply allowed. -/
def Additional.isRuling : Additional → Bool
  | .allowed => false
  | _ => true

theorem Reader.Treats.isRuling {known : List String} {additional : Additional} {others : Others} {fs : Option Nat}
    {tests : List PatternCheck} (h : E.Treats known additional others) :
    (Check.loop fs tests others).isRuling = additional.isRuling := by
  cases h <;> rfl

section Names

variable {r : Surroundings}

theorem readKeyword_propertyNames_of_draft4 (h : r.dialect.draft = .draft4) (v : Json) :
    readKeyword r "propertyNames" v = .ok .any := by
  unfold readKeyword
  rw [h]
  rfl

theorem readKeyword_propertyNames_flag (h : r.dialect.draft ≠ .draft4) (b : Bool) :
    readKeyword r "propertyNames" (.bool b) = .ok (if b then .any else .assert .noPropertyNames) := by
  unfold readKeyword
  rw [if_neg (by simpa [isKeywordOf] using h)]
  cases b <;> rfl

theorem readKeyword_propertyNames_obj (h : r.dialect.draft ≠ .draft4) (ms : Json.Members) :
    readKeyword r "propertyNames" (.obj ms) = (r.part "propertyNames").whole.map .propertyNames := by
  unfold readKeyword
  rw [if_neg (by simpa [isKeywordOf] using h)]
  rfl

end Names

/-- A schema for names of properties. -/
theorem says_propertyNames {u : Json} (hget : s.get? "propertyNames" = some u) {f : Nat} (hf : E.Stands f u) {w : Json}
    {path : String} : E.Says s.members "propertyNames" w path ↔ ∀ members, w = .obj members → ∀ m ∈ members,
      E.dialect.draft ≠ .draft4 → E.code f (.str m.1) path := by
  obtain ⟨c, hc⟩ := hf.readable
  by_cases hdraft : E.dialect.draft = .draft4
  · rw [says_of_any hget (readKeyword_propertyNames_of_draft4 hdraft u)]
    simp [hdraft]
  simp only [hf.verdict, ne_eq, hdraft, not_false_eq_true, true_implies]
  rcases hf.shape with ⟨b, rfl⟩ | ⟨ms, rfl⟩
  · cases b with
    | true =>
        rw [says_of_any hget (readKeyword_propertyNames_flag hdraft true)]
        simp [accepts_true]
    | false =>
        rw [says_assert hget (readKeyword_propertyNames_flag hdraft false)]
        cases w with
        | obj members => cases members with
          | nil => simp [Assertion.faults]
          | cons m rest =>
              refine iff_of_false (by simp [Assertion.faults]) fun hall => ?_
              exact not_accepts_false (hall _ rfl m List.mem_cons_self)
        | null | bool _ | num _ | str _ | arr _ => simp [Assertion.faults]
  · have hpart : ((E.surroundings s.members).part "propertyNames").whole = .ok c := by
      rw [part_surroundings hget]
      exact hc
    rw [says_iff (c := .propertyNames c) hget (by rw [readKeyword_propertyNames_obj hdraft, hpart]; rfl)]
    cases w with
    | obj members => simp [Constraint.issues, List.flatMap_eq_nil_iff, accepts_iff hc]
    | null | bool _ | num _ | str _ | arr _ => simp [Constraint.issues]

theorem Reader.Tests.map_pattern {ps : Json.Members} {tests : List PatternCheck} (h : E.Tests ps tests) :
    tests.map PatternCheck.pattern = ps.map Prod.fst := by
  induction h with
  | nil => rfl
  | cons ht _ ih => rw [List.map_cons, List.map_cons, ht.1, ih]

theorem Reader.Treats.passes_iff {known patterns : List String} {additional : Additional} {others : Others}
    (h : E.Treats known additional others) {m : String × Json} {path : String} :
    others.Passes E.code patterns m path ↔ E.AdditionalPasses known patterns m path additional := by
  cases h with
  | allowed => exact Iff.rfl
  | forbidden _ => exact Iff.rfl
  | checked _ hf => simp only [Others.Passes, AdditionalPasses, hf.verdict]

/-- A loop demands what its patterns, its names and its treatment of other properties stand for. -/
theorem loop_passes {known : List String} {ps : Json.Members} {additional : Additional} {fs : Option Nat}
    {tests : List PatternCheck} {others : Others}
    (hnames : Option.Rel (fun u f => E.Stands f u) (s.get? "propertyNames") fs) (htests : E.Tests ps tests)
    (hothers : E.Treats known additional others) (w : Json) (path : String) :
    (Check.loop fs tests others).Passes E.dialect.draft ruled E.code w path
      ↔ E.Says s.members "propertyNames" w path ∧ E.LoopPasses known ps additional w path := by
  have hmeant : E.Says s.members "propertyNames" w path ↔ ∀ members, w = .obj members → ∀ m ∈ members,
      ∀ f ∈ fs, E.dialect.draft ≠ .draft4 → E.code f (.str m.1) path := by
    generalize hget : s.get? "propertyNames" = names at hnames
    cases hnames with
    | none =>
        rw [says_of_none hget]
        simp
    | some hf =>
        rw [says_propertyNames hget hf]
        simp
  have hmatched (m : String × Json) :
      (∀ t ∈ tests, Matches t.pattern m.1 → E.code t.function m.2 (Issue.below path m.1))
      ↔ ∀ p ∈ ps, Matches p.1 m.1 → E.Accepts p.2 m.2 (Issue.below path m.1) := by
    refine (forall_mem_iff_of_forall₂ (fun p t ht => ?_) htests).symm
    rw [ht.1, ht.2.2.verdict]
  simp only [Check.Passes, hmeant, hmatched, hothers.passes_iff, htests.map_pattern, LoopPasses]
  exact ⟨fun hall => ⟨fun members hw m hm => (hall members hw m hm).1, fun members hw m hm => (hall members hw m hm).2⟩,
    fun hall members hw m hm => ⟨hall.1 members hw m hm, hall.2 members hw m hm⟩⟩

theorem loop_fits {known : List String} {ps : Json.Members} {additional : Additional} {fs : Option Nat}
    {tests : List PatternCheck} {others : Others} (htests : E.Tests ps tests)
    (hothers : E.Treats known additional others) : (Check.loop fs tests others).Fits E.constants := by
  refine ⟨?_, ?_⟩
  · exact (forall_mem_iff_of_forall₂ (fun p t ht => iff_of_true trivial ht.2.1) htests).mp fun _ _ => trivial
  · cases hothers with
    | allowed => trivial
    | forbidden h => exact h
    | checked h _ => exact h

theorem loopPiece_means (known : List String) (ps : Json.Members) :
    (loopPiece s known ps).Means E ruled (additionalOf s).isRuling fun w path =>
      E.Says s.members "propertyNames" w path ∧ E.LoopPasses known ps (additionalOf s) w path := by
  refine means_ite (fun _ ns hns => ?_) fun hnone => ?_
  · obtain ⟨fs, tests, others, hlines, hnames, htests, hothers⟩ := exists_loop hns
    refine ⟨[.loop fs tests others], hlines.trans (List.flatMap_singleton _ _).symm, ?_⟩
    exact hothers.isRuling ▸ .single (loop_fits htests hothers) (loop_passes hnames htests hothers)
  · rw [Bool.not_eq_true, Bool.or_eq_false_iff, Bool.or_eq_false_iff] at hnone
    obtain ⟨⟨hempty, hnames⟩, hallowed⟩ := hnone
    obtain rfl : ps = [] := by simpa using hempty
    replace hnames : s.get? "propertyNames" = none := by simpa using hnames
    replace hallowed : additionalOf s = .allowed := by
      revert hallowed
      cases additionalOf s <;> simp
    rw [hallowed]
    exact means_empty.congr fun w path => by simp [says_of_none hnames, LoopPasses, AdditionalPasses]

/-! ## Properties of a schema -/

/-- How a schema treats properties that are left. -/
theorem additional_cases (h : Legible E.dialect s.members) :
    (additionalOf s = .allowed ∧ ruledByAdditional (E.surroundings s.members) = false
      ∧ ∀ w path, E.Says s.members "additionalProperties" w path ↔ True)
    ∨ (s.get? "additionalProperties" = some (.bool false) ∧ additionalOf s = .forbidden
      ∧ ruledByAdditional (E.surroundings s.members) = true)
    ∨ ∃ ms, s.get? "additionalProperties" = some (.obj ms) ∧ additionalOf s = .checked (.obj ms)
      ∧ ruledByAdditional (E.surroundings s.members) = true := by
  have hread (v : Json) : readKeyword (E.surroundings s.members) "additionalProperties" v
      = readAdditionalProperties (E.surroundings s.members) v := rfl
  have hsame : (E.surroundings s.members).get? "additionalProperties" = s.get? "additionalProperties" := rfl
  unfold additionalOf ruledByAdditional
  rw [hsame]
  cases hget : s.get? "additionalProperties" with
  | none => exact Or.inl ⟨rfl, rfl, fun _ _ => says_of_none hget⟩
  | some v =>
      obtain ⟨c, hc⟩ := h.exists_read hget
      have hadditional := hc
      rw [hread, readAdditionalProperties] at hadditional
      obtain ⟨patterned, hpatterned, hadditional⟩ := bind_eq_ok hadditional
      cases v with
      | bool b => cases b with
        | true =>
            refine Or.inl ⟨rfl, rfl, fun _ _ => says_of_any hget ?_⟩
            rw [hc, ← hadditional]
            rfl
        | false => exact Or.inr (Or.inl ⟨rfl, rfl, rfl⟩)
      | obj ms => exact Or.inr (Or.inr ⟨ms, rfl, rfl, rfl⟩)
      | null | num _ | str _ | arr _ =>
          obtain ⟨others, hothers, -⟩ := bind_eq_ok hadditional
          rw [part_surroundings hget] at hothers
          rcases shape_of_read (E := E) hothers with ⟨b, hb⟩ | ⟨ms, hms⟩
          · cases hb
          · cases hms

/-- What additional properties are read as, where they are ruled. -/
theorem readAdditional_of_obj (ms : Json.Members) (S : Surroundings) : readAdditionalProperties S (.obj ms) = (do
    let patterned ← patternedParts S
    let others ← (S.part "additionalProperties").whole
    return .allProperties (← knownParts S) patterned others) := rfl

theorem readAdditional_of_false (S : Surroundings) : readAdditionalProperties S (.bool false) = (do
    let patterned ← patternedParts S
    if (S.get? "properties").isNone && (S.get? "patternProperties").isNone then return .assert .noProperties
    return .onlyProperties (← knownParts S) patterned) := rfl

theorem readsPatterns_of_patternedParts {patterned : List (Pattern.Node × Constraint)}
    (h : patternedParts (E.surroundings s.members) = .ok patterned) :
    E.ReadsPatterns (s.members? "patternProperties") patterned := by
  have hsame : (E.surroundings s.members).get? "patternProperties" = s.get? "patternProperties" := rfl
  unfold patternedParts at h
  unfold Site.members?
  rw [hsame] at h
  cases hget : s.get? "patternProperties" with
  | none =>
      simp only [hget] at h
      obtain rfl : [] = patterned := Except.ok.inj h
      exact .nil
  | some v =>
      simp only [hget] at h
      cases v with
      | obj ps =>
          obtain ⟨parts, hparts, h⟩ := bind_eq_ok h
          rw [part_surroundings hget] at hparts
          exact readsPatterns_of_readPatterns (readsMembers_of_members hparts) h
      | null | bool _ | num _ | str _ | arr _ => cases h

theorem readsMembers_of_knownParts {known : List (String × Constraint)}
    (h : knownParts (E.surroundings s.members) = .ok known) : E.ReadsMembers (s.members? "properties") known := by
  have hsame : (E.surroundings s.members).get? "properties" = s.get? "properties" := rfl
  unfold knownParts at h
  unfold Site.members?
  rw [hsame] at h
  cases hget : s.get? "properties" with
  | none =>
      simp only [hget] at h
      obtain rfl : [] = known := Except.ok.inj h
      exact .nil
  | some v =>
      simp only [hget] at h
      cases v with
      | obj ms =>
          rw [part_surroundings hget] at h
          exact readsMembers_of_members h
      | null | bool _ | num _ | str _ | arr _ => cases h

/-- **What the engine demands of properties** is what the code demands. -/
theorem says_properties_iff (h : Legible E.dialect s.members) {w : Json} {path : String} :
    ((∀ m ∈ s.members? "properties",
        NamedPasses (ruledByAdditional (E.surroundings s.members)) (E.Accepts m.2) m.1 w path)
      ∧ E.LoopPasses ((s.members? "properties").map Prod.fst) (s.members? "patternProperties") (additionalOf s) w path)
    ↔ E.Says s.members "properties" w path ∧ E.Says s.members "patternProperties" w path
      ∧ E.Says s.members "additionalProperties" w path := by
  have hproperties (v : Json) : readKeyword (E.surroundings s.members) "properties" v
      = if ruledByAdditional (E.surroundings s.members) then .ok .any
        else (knownParts (E.surroundings s.members)).map .properties := rfl
  have hpatterns (v : Json) : readKeyword (E.surroundings s.members) "patternProperties" v
      = if ruledByAdditional (E.surroundings s.members) then .ok .any
        else (patternedParts (E.surroundings s.members)).map .patterns := rfl
  have hread (v : Json) : readKeyword (E.surroundings s.members) "additionalProperties" v
      = readAdditionalProperties (E.surroundings s.members) v := rfl
  -- keywords that are ruled by another demand nothing of their own
  have hruled (hruled : ruledByAdditional (E.surroundings s.members) = true) :
      (E.Says s.members "properties" w path ↔ True) ∧ (E.Says s.members "patternProperties" w path ↔ True) := by
    constructor
    · cases hget : s.members.get? "properties" with
      | none => exact says_of_none hget
      | some v => exact says_of_any hget (by rw [hproperties, if_pos hruled])
    · cases hget : s.members.get? "patternProperties" with
      | none => exact says_of_none hget
      | some v => exact says_of_any hget (by rw [hpatterns, if_pos hruled])
  rcases additional_cases h with ⟨hadditional, hfree, hmeant⟩ | ⟨hget, hadditional, hrules⟩
    | ⟨ms, hget, hadditional, hrules⟩
  -- nothing is said of the properties that are left, so each keyword is read by itself
  · rw [hadditional, hmeant, hfree, and_true]
    refine and_congr ?_ ?_
    · cases hget : s.get? "properties" with
      | none =>
          rw [says_of_none hget]
          simp [Site.members?, hget]
      | some v =>
          obtain ⟨c, hc⟩ := h.exists_read hget
          have hparts := hc
          rw [hproperties, hfree] at hparts
          obtain ⟨known, hknown, rfl⟩ := map_eq_ok hparts
          rw [says_iff hget hc, (readsMembers_of_knownParts hknown).properties_iff]
    · cases hget : s.get? "patternProperties" with
      | none =>
          rw [says_of_none hget]
          simp [Site.members?, hget, LoopPasses, AdditionalPasses]
      | some v =>
          obtain ⟨c, hc⟩ := h.exists_read hget
          have hparts := hc
          rw [hpatterns, hfree] at hparts
          obtain ⟨patterned, hpatterned, rfl⟩ := map_eq_ok hparts
          rw [says_iff hget hc, (readsPatterns_of_patternedParts hpatterned).patterns_iff]
  · obtain ⟨hfirst, hsecond⟩ := hruled hrules
    rw [hadditional, hrules, hfirst, hsecond, true_and, true_and]
    obtain ⟨c, hc⟩ := h.exists_read hget
    rw [says_iff hget hc]
    rw [hread, readAdditional_of_false] at hc
    obtain ⟨patterned, hpatterned, hc⟩ := bind_eq_ok hc
    have hps := readsPatterns_of_patternedParts hpatterned
    split at hc
    · next hnone =>
      obtain rfl := Except.ok.inj hc
      rw [Bool.and_eq_true, Option.isNone_iff_eq_none, Option.isNone_iff_eq_none] at hnone
      have hms : s.members? "properties" = [] := by
        unfold Site.members? Site.get?
        rw [show s.members.get? "properties" = none from hnone.1]
      have hps : s.members? "patternProperties" = [] := by
        unfold Site.members? Site.get?
        rw [show s.members.get? "patternProperties" = none from hnone.2]
      rw [noProperties_iff, hms, hps]
      simp
    · obtain ⟨known, hknown, hc⟩ := bind_eq_ok hc
      obtain rfl := Except.ok.inj hc
      exact (onlyProperties_iff (readsMembers_of_knownParts hknown) hps).symm
  · obtain ⟨hfirst, hsecond⟩ := hruled hrules
    rw [hadditional, hrules, hfirst, hsecond, true_and, true_and]
    obtain ⟨c, hc⟩ := h.exists_read hget
    rw [says_iff hget hc]
    rw [hread, readAdditional_of_obj] at hc
    obtain ⟨patterned, hpatterned, hc⟩ := bind_eq_ok hc
    obtain ⟨others, hothers, hc⟩ := bind_eq_ok hc
    obtain ⟨known, hknown, hc⟩ := bind_eq_ok hc
    obtain rfl := Except.ok.inj hc
    rw [part_surroundings hget] at hothers
    exact (allProperties_iff (readsMembers_of_knownParts hknown) (readsPatterns_of_patternedParts hpatterned)
      hothers).symm

theorem isRuling_additionalOf (h : Legible E.dialect s.members) :
    (additionalOf s).isRuling = ruledByAdditional (E.surroundings s.members) := by
  rcases additional_cases h with ⟨hadditional, hrules, -⟩ | ⟨-, hadditional, hrules⟩ | ⟨ms, -, hadditional, hrules⟩ <;>
    rw [hadditional, hrules] <;> rfl

theorem propertiesPiece_means (h : Legible E.dialect s.members) :
    (propertiesPiece s).Means E (ruledByAdditional (E.surroundings s.members))
      (ruledByAdditional (E.surroundings s.members)) fun w path =>
        ∀ keyword ∈ ["properties", "patternProperties", "additionalProperties", "propertyNames"],
          E.Says s.members keyword w path := by
  refine means_bind fun properties hproperties => ?_
  obtain rfl := objectKeyword_eq hproperties
  have hloop : (ofExcept (objectKeyword s "patternProperties" >>= fun ps =>
      .ok (loopPiece s ((s.members? "properties").map Prod.fst) ps))).Means E
      (ruledByAdditional (E.surroundings s.members)) (ruledByAdditional (E.surroundings s.members)) fun w path =>
        E.Says s.members "propertyNames" w path ∧ E.LoopPasses ((s.members? "properties").map Prod.fst)
          (s.members? "patternProperties") (additionalOf s) w path := by
    refine means_bind fun ps hps => ?_
    obtain rfl := objectKeyword_eq hps
    rw [← isRuling_additionalOf h]
    exact loopPiece_means _ _
  refine ((means_concat_map fun m _ => propertyPiece_means m).append hloop).congr fun w path => ?_
  rw [and_left_comm, says_properties_iff h]
  simp only [List.forall_mem_cons, List.not_mem_nil, false_implies, implies_true, and_true]
  tauto

/-! ## Dependencies -/

/-- What is demanded of a value where a property is present. -/
def Reader.Wants (E : Reader) (members : Json.Members) (path : String) : Json → Prop
  | .arr items => ∀ name, .str name ∈ items → Json.Members.contains members name = true
  | u => E.Accepts u (.obj members) path

/-- What is demanded of a value by a dependency. -/
def Reader.DependencyPasses (E : Reader) (d : String × Json) (w : Json) (path : String) : Prop :=
  ∀ members, w = .obj members → Json.Members.contains members d.1 = true → E.Wants members path d.2

theorem Reader.wants_of_read {u : Json} {c : Constraint} (hread : Meaning.read E.dialect u = .ok c)
    {members : Json.Members} {path : String} : E.Wants members path u ↔ E.Accepts u (.obj members) path := by
  rcases shape_of_read hread with ⟨b, rfl⟩ | ⟨ms, rfl⟩ <;> exact Iff.rfl

theorem Reader.Stands.wants_iff {f : Nat} {u : Json} (hf : E.Stands f u) {members : Json.Members} {path : String} :
    E.Wants members path u ↔ E.code f (.obj members) path := by
  obtain ⟨c, hread⟩ := hf.readable
  rw [wants_of_read hread, hf.verdict]

/-- A list of names that a property depends on. -/
theorem row_dependents (ruled : Bool) (name : String) (others : List String) :
    E.Row ruled ([.dependents name] ++ others.map (Check.dependent · name) ++ [.leave]) false
      (E.DependencyPasses (name, .arr (others.map .str))) := by
  have henter : E.Row ruled [.dependents name] false fun _ _ => True := .single trivial fun _ _ => Iff.rfl
  have hleave : E.Row ruled [.leave] false fun _ _ => True := .single trivial fun _ _ => Iff.rfl
  have hothers : E.Row ruled (others.map (Check.dependent · name)) false
      (E.DependencyPasses (name, .arr (others.map .str))) := by
    refine ⟨by simp [Check.Fits], by simp [Check.isRuling], fun w path => ?_⟩
    rw [List.forall_mem_map]
    simp only [Check.Passes, DependencyPasses, Wants, List.mem_map, Json.str.injEq, exists_eq_right]
    exact ⟨fun hall members hw hname other hother => hall other hother members hw hname,
      fun hall other hother members hw hname => hall members hw hname other hother⟩
  exact ((henter.append hothers).append hleave).congr fun w path => by simp

theorem dependencyPiece_means (d : String × Json) :
    (dependencyPiece s d).Means E ruled false (E.DependencyPasses d) := by
  obtain ⟨name, v⟩ := d
  unfold dependencyPiece
  dsimp only
  split
  · refine means_bind fun others hothers => ?_
    obtain rfl := strings_eq_ok_iff.mp hothers
    refine means_ofCalls _ ?_ (row_dependents ruled name others)
    simp [Check.calls, List.flatMap_map]
  · next hlist =>
    refine means_ask (fun f => .dependentSchema name f) (fun _ => rfl) (fun _ => rfl) (fun _ _ => trivial)
      fun f (hf : E.Stands f v) w path => ?_
    simp only [Check.Passes, DependencyPasses, hf.wants_iff]
    exact forall₃_congr fun members hw _ => by rw [hw]

/-- What is read of dependencies, one by one. -/
theorem dependencies_iff {path : String} {members : Json.Members} : ∀ {ds : Json.Members}
    {known : List (String × Constraint)},
      readDependencies ds (ds.map fun m => (m.1, Meaning.read E.dialect m.2)) = .ok known →
        ((∀ k ∈ known, Json.Members.contains members k.1 = true → k.2.issues E.follow (.obj members) path = [])
          ↔ ∀ d ∈ ds, E.DependencyPasses d (.obj members) path)
  | [], known, h => by
      obtain rfl : [] = known := Except.ok.inj h
      simp
  | (name, v) :: rest, known, h => by
      have hone {c : Constraint} (hc : c.issues E.follow (.obj members) path = [] ↔ E.Wants members path v) :
          (Json.Members.contains members name = true → c.issues E.follow (.obj members) path = [])
            ↔ E.DependencyPasses (name, v) (.obj members) path := by
        simp [DependencyPasses, hc]
      by_cases hlist : ∃ items, v = .arr items
      · obtain ⟨items, rfl⟩ := hlist
        rw [List.map_cons, readDependencies] at h
        obtain ⟨names, hnames, h⟩ := bind_eq_ok h
        obtain ⟨more, hmore, h⟩ := bind_eq_ok h
        obtain rfl := Except.ok.inj h
        rw [List.forall_mem_cons, List.forall_mem_cons, dependencies_iff hmore]
        refine and_congr_left fun _ => hone ?_
        obtain rfl := readStrings_iff.mp hnames
        rw [Constraint.assert_eq_nil_iff, faults_required_iff]
        simp [Wants]
      · rw [List.map_cons, readDependencies] at h
        · obtain ⟨c, hread, h⟩ := bind_eq_ok h
          obtain ⟨more, hmore, h⟩ := bind_eq_ok h
          obtain rfl := Except.ok.inj h
          rw [List.forall_mem_cons, List.forall_mem_cons, dependencies_iff hmore]
          exact and_congr_left fun _ => hone ((accepts_iff hread).symm.trans (wants_of_read hread).symm)
        · exact fun items hitems => hlist ⟨items, hitems⟩

theorem readKeyword_dependencies {s : Surroundings} {ms : Json.Members} {parts : List (String × Read)}
    (hparts : s.part "dependencies" = .named parts) :
    readKeyword s "dependencies" (.obj ms) = (readDependencies ms parts).map .dependencies := by
  unfold readKeyword
  rw [if_neg (by simp [isKeywordOf])]
  simp only [hparts]

theorem dependenciesPiece_means (h : Legible E.dialect s.members) :
    (dependenciesPiece s).Means E ruled false (E.Says s.members "dependencies") := by
  refine means_bind fun ds hds => ?_
  refine (means_concat_map fun d _ => dependencyPiece_means d).congr fun w path => ?_
  obtain rfl := objectKeyword_eq hds
  cases hget : s.get? "dependencies" with
  | none =>
      rw [says_of_none hget]
      simp [Site.members?, hget]
  | some v =>
      obtain ⟨c, hc⟩ := h.exists_read hget
      rw [says_iff hget hc]
      cases v with
      | obj ms =>
          rw [readKeyword_dependencies (part_surroundings hget)] at hc
          obtain ⟨known, hknown, rfl⟩ := map_eq_ok hc
          have hms : s.members? "dependencies" = ms := by
            unfold Site.members?
            rw [hget]
          rw [hms]
          cases w with
          | obj members =>
              rw [Constraint.issues, Constraint.issuesOfDependencies_eq_nil_iff]
              exact (dependencies_iff hknown).symm
          | null | bool _ | num _ | str _ | arr _ => simp [Constraint.issues, DependencyPasses]
      | null | bool _ | num _ | str _ | arr _ => cases hc

/-! ## Objects -/

theorem objectPiece_means (h : Legible E.dialect s.members) :
    (objectPiece s).Means E (ruledByAdditional (E.surroundings s.members))
      (ruledByAdditional (E.surroundings s.members)) fun w path =>
        ∀ keyword ∈ ["properties", "required", "additionalProperties", "patternProperties", "propertyNames",
          "minProperties", "maxProperties", "dependencies"], E.Says s.members keyword w path := by
  refine .wrap .object ?_
  have hparts := (requiredPiece_means (s := s)).concat_cons ((propertyCountPiece_means (s := s)).concat_cons
    ((propertiesPiece_means h).concat_cons ((dependenciesPiece_means h).concat_cons means_concat_nil)))
  rw [Bool.or_false, Bool.or_false, Bool.false_or, Bool.false_or] at hparts
  refine hparts.congr fun w path => ?_
  simp only [List.forall_mem_cons, List.not_mem_nil, false_implies, implies_true, and_true]
  tauto

end DecoderForge.Standalone
