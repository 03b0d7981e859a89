import DecoderForge.Proofs.Standalone.PropertyMeanings

/-!
# DecoderForge — bodies mean what their code demands

The code for all keywords of an object demands of a value what the engine demands by the object.

## The architecture

* **`…_means`** — combinations of schemas.
* **`keywordPieces_means`** — all keywords of an object.
* **`Reader.accepts_obj_iff`** — the engine's verdict on an object, keyword by keyword.
* **`body_means`** — the body of an object.
-/

namespace DecoderForge.Standalone

open Layout (Call)
open SchemaReading
open Reader Piece

variable {E : Reader} {s : Site} {ruled : Bool}

/-! ## Combinations -/

theorem standFor_of_listDemands {keyword : String} : ∀ {i : Nat} {us : List Json} {fs : List Nat},
    List.Forall₂ E.Meets (listDemands s keyword i us) fs → E.StandFor us fs
  | _, [], _, .nil => .nil
  | _, _ :: _, _, .cons hf hrest => .cons hf (standFor_of_listDemands hrest)

/-- Lines over the functions of a list of schemas. -/
theorem listPiece_means {keyword : String} {lines : List Nat → List Call} {P : Json → String → Prop}
    (hnone : s.get? keyword = none → ∀ w path, P w path)
    (hlines : ∀ us fs, s.get? keyword = some (.arr us) → E.StandFor us fs →
      ∃ checks : List Check, lines fs = checks.flatMap Check.calls ∧ E.Row ruled checks false P) :
    (listPiece s keyword lines).Means E ruled false P := by
  unfold listPiece
  split
  · next hget => exact means_empty.congr fun w path => iff_of_true trivial (hnone hget w path)
  · next u rest hget => exact fun fs hfs => hlines _ fs hget (standFor_of_listDemands hfs)
  · exact means_ofFault _

/-- A list of schemas as a constraint. -/
theorem says_list (h : Legible E.dialect s.members) {keyword : String} (make : List Constraint → Constraint)
    {us : List Json} (hget : s.get? keyword = some (.arr us)) (hplace : SchemaPlace.ofKeyword keyword = .items)
    (hread : readKeyword (E.surroundings s.members) keyword (.arr us)
      = readList (E.surroundings s.members) keyword (.arr us) make) :
    ∃ cs, E.Reads us cs ∧ ∀ w path, E.Says s.members keyword w path ↔ (make cs).issues E.follow w path = [] := by
  obtain ⟨c, hc⟩ := h.exists_read hget
  have hlist := hc
  rw [hread, readList, part_surroundings hget, hplace] at hlist
  obtain ⟨cs, hcs, rfl⟩ := map_eq_ok hlist
  exact ⟨cs, reads_of_mapM hcs, fun w path => says_iff hget hc⟩

theorem allOfPiece_means (h : Legible E.dialect s.members) :
    (allOfPiece s).Means E ruled false (E.Says s.members "allOf") := by
  refine listPiece_means (fun hget w path => (says_of_none hget).mpr trivial) fun us fs hget hfs => ?_
  obtain ⟨cs, hcs, hmeant⟩ := says_list h .all hget rfl rfl
  refine ⟨fs.map .all, by rw [List.flatMap_map, List.map_eq_flatMap]; rfl, by simp [Check.Fits],
    by simp [Check.isRuling], fun w path => ?_⟩
  rw [hmeant, Constraint.issues, Constraint.issuesOfAll_eq_nil_iff, hcs.forall_iff, ← hfs.forall_iff,
    List.forall_mem_map]
  rfl

theorem anyOfPiece_means (h : Legible E.dialect s.members) :
    (anyOfPiece s).Means E ruled false (E.Says s.members "anyOf") := by
  refine listPiece_means (fun hget w path => (says_of_none hget).mpr trivial) fun us fs hget hfs => ?_
  obtain ⟨cs, hcs, hmeant⟩ := says_list h .anyOf hget rfl rfl
  refine ⟨[.any fs], by simp [Check.calls], .single trivial fun w path => ?_⟩
  classical
  have hsome : (∃ f ∈ fs, E.code f w path) ↔ (fs.countP fun f => decide (E.code f w path)) ≠ 0 := by
    rw [Ne, List.countP_eq_zero]
    simp
  rw [hmeant, Constraint.issues, hcs.countAllowing_eq, ← hfs.countP_eq, Check.Passes, hsome]
  simp

theorem oneOfPiece_means (h : Legible E.dialect s.members) :
    (oneOfPiece s).Means E ruled false (E.Says s.members "oneOf") := by
  refine listPiece_means (fun hget w path => (says_of_none hget).mpr trivial) fun us fs hget hfs => ?_
  obtain ⟨cs, hcs, hmeant⟩ := says_list h .oneOf hget rfl rfl
  refine ⟨[.one fs], by simp [Check.calls], .single trivial fun w path => ?_⟩
  rw [hmeant, Constraint.issues, hcs.countAllowing_eq, ← hfs.countP_eq, Check.Passes]
  generalize (fs.countP fun f => _) = n
  rcases n with _ | _ | n <;> simp

theorem notPiece_means : (notPiece s).Means E ruled false (E.Says s.members "not") := by
  unfold notPiece
  cases hget : s.get? "not" with
  | none => exact means_empty.congr fun _ _ => (says_of_none hget).symm
  | some u =>
      refine means_ask (fun f => .not f) (fun _ => rfl) (fun _ => rfl) (fun _ _ => trivial)
        fun f (hf : E.Stands f u) w path => ?_
      obtain ⟨c, hc⟩ := hf.readable
      have hread : readKeyword (E.surroundings s.members) "not" u = .ok (.not u c) := by
        show ((E.surroundings s.members).part "not").whole.map _ = _
        rw [part_surroundings hget]
        show (Meaning.read E.dialect u).map _ = _
        rw [hc]
        rfl
      rw [says_iff hget hread, Constraint.issues, Check.Passes, hf.issues_iff hc]
      simp

/-! ## Conditions -/

/-- A branch of a condition, or none. -/
theorem exists_branch {keyword : String} (hplace : SchemaPlace.ofKeyword keyword = .whole) {branch : Option Nat}
    (hbranch : Option.Rel (fun u f => E.Stands f u) (s.get? keyword) branch) :
    ∃ c, ((E.surroundings s.members).part keyword).whole = .ok c
      ∧ ∀ w path, c.issues E.follow w path = [] ↔ ∀ f ∈ branch, E.code f w path := by
  generalize hget : s.get? keyword = x at hbranch
  cases hbranch with
  | none =>
      refine ⟨.any, by rw [part_surroundings_none hget]; rfl, fun w path => ?_⟩
      simp [Constraint.issues_any]
  | some hf =>
      obtain ⟨c, hc⟩ := hf.readable
      refine ⟨c, by rw [part_surroundings hget, hplace]; exact hc, fun w path => ?_⟩
      simp [hf.issues_iff hc]

theorem choose_passes {u : Json} {test : Nat} {yes no : Option Nat} (hget : s.get? "if" = some u)
    (htest : E.Stands test u) (hyes : Option.Rel (fun u f => E.Stands f u) (s.get? "then") yes)
    (hno : Option.Rel (fun u f => E.Stands f u) (s.get? "else") no)
    (hsome : ((s.get? "then").isNone && (s.get? "else").isNone) = false) (w : Json) (path : String) :
    (Check.choose test yes no).Passes E.dialect.draft ruled E.code w path ↔ E.Says s.members "if" w path := by
  have hread : readKeyword (E.surroundings s.members) "if" u
      = if !(E.dialect.draft == .draft7) then .ok .any else readCondition (E.surroundings s.members) := rfl
  by_cases hdraft : E.dialect.draft = .draft7
  · obtain ⟨c, hc⟩ := htest.readable
    obtain ⟨a, ha, hyes⟩ := exists_branch (s := s) rfl hyes
    obtain ⟨b, hb, hno⟩ := exists_branch (s := s) rfl hno
    have hcondition : readCondition (E.surroundings s.members) = .ok (.cond c a b) := by
      have hwhole : ((E.surroundings s.members).part "if").whole = .ok c := by
        rw [part_surroundings hget]
        exact hc
      unfold readCondition
      rw [show (((E.surroundings s.members).get? "then").isNone
        && ((E.surroundings s.members).get? "else").isNone) = false from hsome, hwhole, ha, hb]
      rfl
    rw [says_iff (c := .cond c a b) hget (by rw [hread, if_neg (by simp [hdraft]), hcondition]), Constraint.issues]
    simp only [Check.Passes, hdraft, true_implies, htest.issues_iff hc, ← hyes, ← hno]
    by_cases htrue : c.issues E.follow w path = [] <;> simp [htrue]
  · rw [says_of_any hget (by rw [hread, if_pos (by simp [hdraft])])]
    simp [Check.Passes, hdraft]

theorem conditionPiece_means : (conditionPiece s).Means E ruled false (E.Says s.members "if") := by
  have hread (v : Json) : readKeyword (E.surroundings s.members) "if" v
      = if !(E.dialect.draft == .draft7) then .ok .any else readCondition (E.surroundings s.members) := rfl
  unfold conditionPiece
  split
  · next hget => exact means_empty.congr fun _ _ => (says_of_none hget).symm
  · next u hget hthen helse =>
    refine means_empty.congr fun _ _ => (says_of_any hget ?_).symm
    rw [hread]
    split
    · rfl
    · unfold readCondition
      rw [if_pos]
      rw [show (E.surroundings s.members).get? "then" = none from hthen,
        show (E.surroundings s.members).get? "else" = none from helse]
      rfl
  · next u t hget hthen helse =>
    intro ns hns
    cases hns with
    | @cons _ f _ _ hf hns => cases hns with
      | @cons _ c _ _ hc hns =>
          cases hns
          refine ⟨[.choose c (some f) none], rfl, .single trivial (choose_passes hget hc ?_ ?_ ?_)⟩
          · rw [hthen]
            exact .some hf
          · rw [helse]
            exact .none
          · rw [hthen]
            rfl
  · next u e hget hthen helse =>
    intro ns hns
    cases hns with
    | @cons _ f _ _ hf hns => cases hns with
      | @cons _ c _ _ hc hns =>
          cases hns
          refine ⟨[.choose c none (some f)], rfl, .single trivial (choose_passes hget hc ?_ ?_ ?_)⟩
          · rw [hthen]
            exact .none
          · rw [helse]
            exact .some hf
          · rw [hthen, helse]
            rfl
  · next u t e hget hthen helse =>
    intro ns hns
    cases hns with
    | @cons _ f _ _ hf hns => cases hns with
      | @cons _ g _ _ hg hns => cases hns with
        | @cons _ c _ _ hc hns =>
            cases hns
            refine ⟨[.choose c (some f) (some g)], rfl, .single trivial (choose_passes hget hc ?_ ?_ ?_)⟩
            · rw [hthen]
              exact .some hf
            · rw [helse]
              exact .some hg
            · rw [hthen]
              rfl

/-! ## All keywords -/

/-- The lines of an object's keywords between the first and the last line of a body. -/
def keywordPieces (s : Site) : List Piece :=
  [typePiece s, enumPiece s, constPiece s, numericPiece s, stringPiece s, arrayPiece s, objectPiece s, allOfPiece s,
    anyOfPiece s, oneOfPiece s, notPiece s, conditionPiece s]

/-- The keywords that always have code, in the order of the pieces. -/
def keywordGroups : List (List String) :=
  [["type"], ["enum"], ["const"], ["minimum", "maximum", "exclusiveMinimum", "exclusiveMaximum", "multipleOf"],
    ["minLength", "maxLength", "pattern"], ["items", "contains", "minItems", "maxItems", "uniqueItems"],
    ["properties", "required", "additionalProperties", "patternProperties", "propertyNames", "minProperties",
      "maxProperties", "dependencies"],
    ["allOf"], ["anyOf"], ["oneOf"], ["not"], ["if"], ["then", "else"]]

/-- The keywords with code, group by group. -/
theorem forall_isCoded_iff {members : Json.Members} {P : String → Prop} :
    (∀ keyword, isCoded members keyword = true → keyword ≠ "$ref" → P keyword)
      ↔ (isCoded members "additionalItems" = true → P "additionalItems")
        ∧ ∀ keyword ∈ keywordGroups.flatten, P keyword := by
  have hall : supportedKeywords.filter (fun keyword => keyword != "$ref" && keyword != "additionalItems")
      = keywordGroups.flatten := by
    decide
  rw [← hall]
  constructor
  · refine fun h => ⟨fun hcoded => h _ hcoded (by decide), fun keyword hkeyword => ?_⟩
    obtain ⟨hmem, hne⟩ := List.mem_filter.mp hkeyword
    rw [Bool.and_eq_true, bne_iff_ne, bne_iff_ne] at hne
    refine h keyword ?_ hne.1
    unfold isCoded
    rw [List.contains_iff_mem.mpr hmem, bne_iff_ne.mpr hne.2]
    rfl
  · rintro ⟨hitems, hothers⟩ keyword hcoded hne
    by_cases hkeyword : keyword = "additionalItems"
    · subst hkeyword
      exact hitems hcoded
    · refine hothers keyword (List.mem_filter.mpr ⟨?_, by simp [hne, hkeyword]⟩)
      unfold isCoded at hcoded
      exact List.contains_iff_mem.mp (Bool.and_eq_true_iff.mp hcoded).1

theorem keywordPieces_means (h : Legible E.dialect s.members) :
    (concat (keywordPieces s)).Means E (ruledByAdditional (E.surroundings s.members))
      (ruledByAdditional (E.surroundings s.members)) fun w path =>
        ∀ keyword, isCoded s.members keyword = true → keyword ≠ "$ref" → E.Says s.members keyword w path := by
  have hparts := (typePiece_means h).concat_cons <| (enumPiece_means h).concat_cons <|
    (constPiece_means h).concat_cons <| (numericPiece_means h).concat_cons <| (stringPiece_means h).concat_cons <| (arrayPiece_means h).concat_cons <|
    (objectPiece_means h).concat_cons <| (allOfPiece_means h).concat_cons <| (anyOfPiece_means h).concat_cons <|
    (oneOfPiece_means h).concat_cons <| (notPiece_means (s := s)).concat_cons <|
    (conditionPiece_means (s := s)).concat_cons means_concat_nil
  simp only [Bool.or_false, Bool.false_or] at hparts
  refine hparts.congr fun w path => ?_
  have hbranches : ∀ keyword ∈ ["then", "else"], E.Says s.members keyword w path := by
    simp only [List.forall_mem_cons, List.not_mem_nil, false_implies, implies_true, and_true]
    constructor
    · cases hget : s.members.get? "then" with
      | none => exact (says_of_none hget).mpr trivial
      | some v => exact (says_of_any hget rfl).mpr trivial
    · cases hget : s.members.get? "else" with
      | none => exact (says_of_none hget).mpr trivial
      | some v => exact (says_of_any hget rfl).mpr trivial
  rw [forall_isCoded_iff]
  simp only [keywordGroups, List.flatten_cons, List.flatten_nil, List.forall_mem_append, List.forall_mem_singleton]
  tauto

/-! ## Objects -/

/-- **The verdict on an object** is that on its keywords with code. -/
theorem Reader.accepts_obj_iff {members : Json.Members} (h : Legible E.dialect members)
    (hknown : ∀ m ∈ members, isKnown E.dialect.formats m.1 = true) (href : members.get? "$ref" = none)
    {w : Json} {path : String} : E.Accepts (.obj members) w path
      ↔ ∀ keyword, isCoded members keyword = true → keyword ≠ "$ref" → E.Says members keyword w path := by
  have hread : Meaning.read E.dialect (.obj members)
      = (members.mapM fun m => readKeyword (E.surroundings members) m.1 m.2).map .all := by
    unfold Meaning.read
    rw [Constraint.readBy_obj, href]
    rfl
  obtain ⟨cs, hcs⟩ := exists_mapM h.readable
  have hrow : List.Forall₂ (fun m c => readKeyword (E.surroundings members) m.1 m.2 = .ok c) members cs :=
    forall₂_of_mapM hcs
  have hall : E.Accepts (.obj members) w path
      ↔ ∀ m ∈ members, ∃ c, readKeyword (E.surroundings members) m.1 m.2 = .ok c ∧ c.issues E.follow w path = [] := by
    rw [accepts_iff (c := .all cs) (by rw [hread]; exact congrArg (Except.map Constraint.all) hcs), Constraint.issues,
      Constraint.issuesOfAll_eq_nil_iff]
    exact (forall_mem_iff_of_forall₂ (fun m c hc => by simp [hc]) hrow).symm
  rw [hall]
  constructor
  · exact fun hall keyword _ _ v hget => hall (keyword, v) (Json.mem_of_get? hget)
  · intro hmeant m hm
    have hget : members.get? m.1 = some m.2 := Json.get?_of_mem h.names hm
    -- what has no code allows every value
    cases hcoded : isCoded members m.1 with
    | false => exact ⟨.any, h.read_of_not_isCoded (hknown m hm) hcoded hget, Constraint.issues_any w⟩
    | true =>
        refine hmeant m.1 hcoded (fun hname => ?_) m.2 hget
        rw [hname, href] at hget
        cases hget

/-! ## Bodies -/

theorem lines_ofCalls_append (calls : List Call) (p : Piece) (ns : List Nat) :
    ((ofCalls calls).append p).lines ns = calls ++ p.lines ns := rfl

theorem demands_ofCalls_append (calls : List Call) (p : Piece) : ((ofCalls calls).append p).demands = p.demands := rfl

theorem lines_concat_ofCalls (calls : List Call) : ∀ (ps : List Piece) (ns : List Nat),
    (concat (ps ++ [ofCalls calls])).lines ns = (concat ps).lines ns ++ calls
  | [], ns => by
      show calls ++ [] = [] ++ calls
      simp
  | p :: rest, ns => by
      show p.lines _ ++ (concat (rest ++ [ofCalls calls])).lines _ = (p.lines _ ++ (concat rest).lines _) ++ calls
      rw [lines_concat_ofCalls calls rest, List.append_assoc]

theorem demands_concat_ofCalls (calls : List Call) : ∀ ps : List Piece,
    (concat (ps ++ [ofCalls calls])).demands = (concat ps).demands
  | [] => rfl
  | p :: rest => congrArg (p.demands ++ ·) (demands_concat_ofCalls calls rest)

/-- The last line of a body, with which no check begins. -/
def returnValid : Call := .line "return valid;"

theorem not_begins_returnValid (l : Check.Lead) : ¬ l.Begins returnValid := by
  have hall : ∀ l ∈ Check.Lead.leads, l.call.levels = returnValid.levels → ¬ l.call.text <+: returnValid.text := by
    decide
  exact fun h => hall l (Check.Lead.mem_leads l) h.1 h.2

theorem keywordsPiece_of_unknown {validateFormats : Bool} {m : String × Json}
    (h : s.members.find? (fun m => !isKnown validateFormats m.1) = some m) :
    keywordsPiece validateFormats s = ofFault (.unsupported m.1 s.location) := by
  unfold keywordsPiece
  rw [h]

theorem keywordsPiece_of_known {validateFormats : Bool}
    (h : s.members.find? (fun m => !isKnown validateFormats m.1) = none) : keywordsPiece validateFormats s
      = (ofCalls [.line "var valid = true;"]).append (concat (keywordPieces s ++ [ofCalls [returnValid]])) := by
  unfold keywordsPiece
  rw [h]
  rfl

/-- **The body of an object** is a row of checks, all of which a value passes that the object accepts. -/
theorem body_means {members : Json.Members} {location : String}
    (h : Legible E.dialect members) (href : members.get? "$ref" = none) {ns : List Nat}
    (hns : List.Forall₂ E.Meets (body E.dialect.formats (.obj members) location).demands ns) :
    ∃ checks : List Check, (body E.dialect.formats (.obj members) location).lines ns
        = .line "var valid = true;" :: (checks.flatMap Check.calls ++ [returnValid])
      ∧ (∀ a ∈ checks, a.Fits E.constants)
      ∧ ∀ w path, E.Accepts (.obj members) w path
        ↔ ∀ a ∈ checks, a.Passes E.dialect.draft (checks.any Check.isRuling) E.code w path := by
  have hbody : body E.dialect.formats (.obj members) location
      = keywordsPiece E.dialect.formats ⟨members, location⟩ := by
    simp only [body, Site.get?, href]
  rw [hbody] at hns ⊢
  cases hfind : members.find? fun m => !isKnown E.dialect.formats m.1 with
  | some m =>
      -- a keyword that is not known is a fault, and nothing meets that
      rw [keywordsPiece_of_unknown hfind] at hns
      cases hns with
      | cons hfault _ => exact hfault.elim
  | none =>
      rw [keywordsPiece_of_known hfind] at hns ⊢
      replace hns : List.Forall₂ E.Meets (concat (keywordPieces ⟨members, location⟩)).demands ns := by
        rwa [demands_ofCalls_append, demands_concat_ofCalls] at hns
      obtain ⟨checks, hlines, hrow⟩ := keywordPieces_means (s := ⟨members, location⟩) h ns hns
      refine ⟨checks, ?_, hrow.fits, fun w path => ?_⟩
      · rw [lines_ofCalls_append, lines_concat_ofCalls, hlines, List.singleton_append]
      · rw [hrow.rules, hrow.passes]
        exact accepts_obj_iff h (fun m hm => by simpa using List.find?_eq_none.mp hfind m hm) href

end DecoderForge.Standalone
