import DecoderForge.Proofs.Schema.Inside
import DecoderForge.Validation.Constraint
import Mathlib.Data.List.Forall2

/-!
# DecoderForge — constraints that differ in their references

Two readings of a schema can give its references different URLs, and agree in the rest on the values that
matter.  Whether a value passes then depends on what is found under these URLs: where this agrees, the verdicts
agree.

## The architecture

* **`Constraint.Matching`** — on which values two readings are compared, and which URLs go together.
* **`Constraint.Alike`** — constraints of the same shape that such a comparison does not tell apart.
* **`Constraint.Agree`** — constraints that give the same verdicts.
* **`Constraint.agree_of_alike`** — constraints that are alike agree where their references do.
-/

namespace DecoderForge.Constraint

/-! ## Values -/

/-- The values that a constraint on a value can be asked about: the value itself, or those inside it. -/
def Reaches (v : Json) : (same : Bool) → Json → Prop
  | true, w => w = v
  | false, w => w.height < v.height

theorem Reaches.below {v w x : Json} : ∀ {same : Bool}, Reaches v same w → x.height < w.height →
    Reaches v false x
  | true, h, hx => by
      obtain rfl : w = v := h
      exact hx
  | false, h, hx => Nat.lt_trans hx h

/-- How two readings are compared: on which values, which may be taken apart, and by which URLs of references.
The flag says whether it is about the very value, and not about a value inside it. -/
structure Matching where
  asked : (same : Bool) → Json → Prop
  item : ∀ {same : Bool} {items : List Json} {w : Json}, asked same (.arr items) → w ∈ items → asked false w
  member : ∀ {same : Bool} {members : Json.Members} {m : String × Json}, asked same (.obj members) → m ∈ members →
    asked false m.2
  name : ∀ {same : Bool} {members : Json.Members}, asked same (.obj members) → ∀ name, asked false (.str name)
  reference : (same : Bool) → Url → Url → Prop

/-- A comparison on one value and on lower ones. -/
def Matching.on (v : Json) (reference : (same : Bool) → Url → Url → Prop) : Matching where
  asked := Reaches v
  item h hw := h.below (Json.Inside.item hw).height_lt
  member h hm := h.below (Json.Inside.member hm).height_lt
  -- a name is less high than what has the member
  name h _ := h.below (Nat.succ_pos _)
  reference := reference

/-! ## Shapes -/

mutual

/-- Constraints of the same shape: their assertions fail the same values, and their references go together. -/
inductive Alike (R : Matching) : Bool → Constraint → Constraint → Prop where
  | never {same : Bool} : Alike R same .never .never
  | assert {same : Bool} {a a' : Assertion} (h : ∀ w, R.asked same w → (a.faults w = [] ↔ a'.faults w = [])) :
      Alike R same (.assert a) (.assert a')
  | all {same : Bool} {ps qs : List Constraint} (h : AllAlike R same ps qs) : Alike R same (.all ps) (.all qs)
  | reference {same : Bool} {url url' : Url} (h : R.reference same url url') :
      Alike R same (.reference url) (.reference url')
  | anyOf {same : Bool} {ps qs : List Constraint} (h : AllAlike R same ps qs) :
      Alike R same (.anyOf ps) (.anyOf qs)
  | oneOf {same : Bool} {ps qs : List Constraint} (h : AllAlike R same ps qs) :
      Alike R same (.oneOf ps) (.oneOf qs)
  | not {same : Bool} (schema : Json) {p q : Constraint} (h : Alike R same p q) :
      Alike R same (.not schema p) (.not schema q)
  | cond {same : Bool} {test test' yes yes' no no' : Constraint} (htest : Alike R same test test')
      (hyes : Alike R same yes yes') (hno : Alike R same no no') :
      Alike R same (.cond test yes no) (.cond test' yes' no')
  | items {same : Bool} {p q : Constraint} (h : Alike R false p q) : Alike R same (.items p) (.items q)
  | tuple {same : Bool} {ps qs : List Constraint} (h : AllAlike R false ps qs) :
      Alike R same (.tuple ps) (.tuple qs)
  | itemsBeyond {same : Bool} (count : Nat) {p q : Constraint} (h : Alike R false p q) :
      Alike R same (.itemsBeyond count p) (.itemsBeyond count q)
  | contains {same : Bool} {p q : Constraint} (h : Alike R false p q) :
      Alike R same (.contains p) (.contains q)
  | properties {same : Bool} {ks ls : List (String × Constraint)} (h : NamedAlike R false ks ls) :
      Alike R same (.properties ks) (.properties ls)
  | patterns {same : Bool} {ps qs : List (Pattern.Node × Constraint)} (h : NamedAlike R false ps qs) :
      Alike R same (.patterns ps) (.patterns qs)
  | onlyProperties {same : Bool} {ks ls : List (String × Constraint)}
      {ps qs : List (Pattern.Node × Constraint)} (hknown : NamedAlike R false ks ls)
      (hpatterned : NamedAlike R false ps qs) : Alike R same (.onlyProperties ks ps) (.onlyProperties ls qs)
  | allProperties {same : Bool} {ks ls : List (String × Constraint)}
      {ps qs : List (Pattern.Node × Constraint)} {others others' : Constraint}
      (hknown : NamedAlike R false ks ls) (hpatterned : NamedAlike R false ps qs)
      (hothers : Alike R false others others') :
      Alike R same (.allProperties ks ps others) (.allProperties ls qs others')
  | propertyNames {same : Bool} {p q : Constraint} (h : Alike R false p q) :
      Alike R same (.propertyNames p) (.propertyNames q)
  | dependencies {same : Bool} {ks ls : List (String × Constraint)} (h : NamedAlike R same ks ls) :
      Alike R same (.dependencies ks) (.dependencies ls)

/-- Constraints that are alike one by one. -/
inductive AllAlike (R : Matching) : Bool → List Constraint → List Constraint → Prop where
  | nil {same : Bool} : AllAlike R same [] []
  | cons {same : Bool} {p q : Constraint} {ps qs : List Constraint} (h : Alike R same p q)
      (hrest : AllAlike R same ps qs) : AllAlike R same (p :: ps) (q :: qs)

/-- Constraints under the same names, or patterns, that are alike one by one. -/
inductive NamedAlike (R : Matching) : {α : Type} → Bool → List (α × Constraint) → List (α × Constraint) → Prop where
  | nil {α : Type} {same : Bool} : @NamedAlike R α same [] []
  | cons {α : Type} {same : Bool} (name : α) {p q : Constraint} {ks ls : List (α × Constraint)}
      (h : Alike R same p q) (hrest : NamedAlike R same ks ls) :
      NamedAlike R same ((name, p) :: ks) ((name, q) :: ls)

end

/-! ## Verdicts -/

variable {R : Matching} {follow follow' : Url → Finder} {same : Bool}

/-- Constraints that give the same verdicts on the values on which they are compared. -/
def Agree (R : Matching) (follow follow' : Url → Finder) (same : Bool) (c c' : Constraint) : Prop :=
  ∀ w path, R.asked same w → (c.issues follow w path = [] ↔ c'.issues follow' w path = [])

/-- Constraints under the same name that do. -/
def AgreeNamed {α : Type} (R : Matching) (follow follow' : Url → Finder) (same : Bool)
    (k l : α × Constraint) : Prop :=
  k.1 = l.1 ∧ Agree R follow follow' same k.2 l.2

-- the proofs of this part unfold the checks of one mutual block, whose equations are made here once
attribute [local simp] issues issuesOfAll countAllowing issuesInTurn issuesOfProperties issuesOfPatterns
  issuesOfDependencies

theorem Agree.isEmpty_eq {c c' : Constraint} (h : Agree R follow follow' same c c') {w : Json} {path : String}
    (hw : R.asked same w) :
    (c.issues follow w path).isEmpty = (c'.issues follow' w path).isEmpty := by
  rw [Bool.eq_iff_iff, List.isEmpty_iff, List.isEmpty_iff]
  exact h w path hw

section Rows

variable {ps qs : List Constraint}

theorem issuesOfAll_agree (h : List.Forall₂ (Agree R follow follow' same) ps qs) {w : Json} {path : String}
    (hw : R.asked same w) :
    issuesOfAll follow ps w path = [] ↔ issuesOfAll follow' qs w path = [] := by
  induction h with
  | nil => simp [issuesOfAll]
  | cons hfirst _ ih =>
      rw [issuesOfAll, issuesOfAll, List.append_eq_nil_iff, List.append_eq_nil_iff, ih, hfirst w path hw]

-- counts agree and not only whether there are issues, as one match more or less decides
theorem countAllowing_agree (h : List.Forall₂ (Agree R follow follow' same) ps qs) {w : Json} {path : String}
    (hw : R.asked same w) : countAllowing follow ps w path = countAllowing follow' qs w path := by
  induction h with
  | nil => simp [countAllowing]
  | cons hfirst _ ih => rw [countAllowing, countAllowing, ih, hfirst.isEmpty_eq hw]

theorem issuesInTurn_agree (h : List.Forall₂ (Agree R follow follow' same) ps qs) {path : String} :
    ∀ {i : Nat} {ws : List Json}, (∀ w ∈ ws, R.asked same w) →
      (issuesInTurn follow ps i ws path = [] ↔ issuesInTurn follow' qs i ws path = []) := by
  induction h with
  | nil => simp [issuesInTurn]
  | cons hfirst _ ih =>
      intro i ws hws
      cases ws with
      | nil => simp [issuesInTurn]
      | cons w ws =>
          obtain ⟨hw, hws⟩ := List.forall_mem_cons.mp hws
          rw [issuesInTurn, issuesInTurn, List.append_eq_nil_iff, List.append_eq_nil_iff, ih hws,
            hfirst w _ hw]

end Rows

section Named

variable {members : Json.Members}

theorem issuesOfProperties_agree {ks ls : List (String × Constraint)}
    (h : List.Forall₂ (AgreeNamed R follow follow' same) ks ls) {path : String}
    (hmembers : ∀ m ∈ members, R.asked same m.2) :
    issuesOfProperties follow ks members path = [] ↔ issuesOfProperties follow' ls members path = [] := by
  induction h with
  | nil => simp [issuesOfProperties]
  | @cons k l _ _ hfirst _ ih =>
      obtain ⟨name, p⟩ := k
      obtain ⟨_, q⟩ := l
      obtain ⟨rfl, hagree⟩ := hfirst
      rw [issuesOfProperties, issuesOfProperties, List.append_eq_nil_iff, List.append_eq_nil_iff, ih]
      cases hget : members.get? name with
      | none => rfl
      | some w => simp only [hagree w _ (hmembers _ (Json.mem_of_get? hget))]

theorem issuesOfPatterns_agree {ps qs : List (Pattern.Node × Constraint)}
    (h : List.Forall₂ (AgreeNamed R follow follow' same) ps qs) {path : String}
    (hmembers : ∀ m ∈ members, R.asked same m.2) :
    issuesOfPatterns follow ps members path = [] ↔ issuesOfPatterns follow' qs members path = [] := by
  induction h with
  | nil => simp [issuesOfPatterns]
  | @cons k l _ _ hfirst _ ih =>
      obtain ⟨node, p⟩ := k
      obtain ⟨_, q⟩ := l
      obtain ⟨rfl, hagree⟩ := hfirst
      rw [issuesOfPatterns, issuesOfPatterns, List.append_eq_nil_iff, List.append_eq_nil_iff, ih,
        List.flatMap_eq_nil_iff, List.flatMap_eq_nil_iff]
      refine and_congr_left fun _ => forall₂_congr fun m hm => ?_
      split
      · exact hagree m.2 _ (hmembers m hm)
      · exact Iff.rfl

theorem issuesOfDependencies_agree {ks ls : List (String × Constraint)}
    (h : List.Forall₂ (AgreeNamed R follow follow' same) ks ls) {path : String}
    (hwhole : R.asked same (.obj members)) :
    issuesOfDependencies follow ks members path = []
      ↔ issuesOfDependencies follow' ls members path = [] := by
  induction h with
  | nil => simp [issuesOfDependencies]
  | @cons k l _ _ hfirst _ ih =>
      obtain ⟨name, p⟩ := k
      obtain ⟨_, q⟩ := l
      obtain ⟨rfl, hagree⟩ := hfirst
      rw [issuesOfDependencies, issuesOfDependencies, List.append_eq_nil_iff, List.append_eq_nil_iff, ih]
      refine and_congr_left fun _ => ?_
      split
      · exact hagree _ _ hwhole
      · exact Iff.rfl

theorem isKnown_agree {ks ls : List (String × Constraint)}
    (h : List.Forall₂ (AgreeNamed R follow follow' same) ks ls) (name : String) :
    isKnown ks name = isKnown ls name := by
  unfold isKnown
  induction h with
  | nil => rfl
  | cons hfirst _ ih => rw [List.any_cons, List.any_cons, ih, hfirst.1]

theorem isPatterned_agree {ps qs : List (Pattern.Node × Constraint)}
    (h : List.Forall₂ (AgreeNamed R follow follow' same) ps qs) (name : String) :
    isPatterned ps name = isPatterned qs name := by
  unfold isPatterned
  induction h with
  | nil => rfl
  | cons hfirst _ ih => rw [List.any_cons, List.any_cons, ih, hfirst.1]

end Named

/-! ## Constraints -/

section Constructors

variable {p q : Constraint} {ks ls : List (String × Constraint)} {pats pats' : List (Pattern.Node × Constraint)}

theorem agree_items (h : Agree R follow follow' false p q) : Agree R follow follow' same (.items p) (.items q) := by
  intro w path hw
  cases w with
  | arr ws =>
      rw [issues, issues, List.flatMap_eq_nil_iff, List.flatMap_eq_nil_iff]
      exact forall₂_congr fun m hm => h m.1 _ (R.item hw (List.fst_mem_of_mem_zipIdx hm))
  | null | bool _ | num _ | str _ | obj _ => simp [issues]

theorem agree_itemsBeyond (count : Nat) (h : Agree R follow follow' false p q) :
    Agree R follow follow' same (.itemsBeyond count p) (.itemsBeyond count q) := by
  intro w path hw
  cases w with
  | arr ws =>
      rw [issues, issues, List.flatMap_eq_nil_iff, List.flatMap_eq_nil_iff]
      refine forall₂_congr fun m hm => h m.1 _ (R.item hw ?_)
      exact List.fst_mem_of_mem_zipIdx (List.mem_of_mem_drop hm)
  | null | bool _ | num _ | str _ | obj _ => simp [issues]

theorem agree_contains (h : Agree R follow follow' false p q) :
    Agree R follow follow' same (.contains p) (.contains q) := by
  intro w path hw
  cases w with
  | arr ws =>
      have hany : (ws.any fun w => (p.issues follow w path).isEmpty)
          = ws.any fun w => (q.issues follow' w path).isEmpty := by
        rw [Bool.eq_iff_iff, List.any_eq_true, List.any_eq_true]
        exact exists_congr fun w => and_congr_right fun hmem => by rw [h.isEmpty_eq (R.item hw hmem)]
      rw [issues, issues, hany]
  | null | bool _ | num _ | str _ | obj _ => simp [issues]

theorem agree_propertyNames (h : Agree R follow follow' false p q) :
    Agree R follow follow' same (.propertyNames p) (.propertyNames q) := by
  intro w path hw
  cases w with
  | obj members =>
      rw [issues, issues, List.flatMap_eq_nil_iff, List.flatMap_eq_nil_iff]
      refine forall₂_congr fun m _ => ?_
      rw [List.map_eq_nil_iff, List.map_eq_nil_iff]
      exact h _ path (R.name hw m.1)
  | null | bool _ | num _ | str _ | arr _ => simp [issues]

theorem agree_tuple {ps qs : List Constraint} (h : List.Forall₂ (Agree R follow follow' false) ps qs) :
    Agree R follow follow' same (.tuple ps) (.tuple qs) := by
  intro w path hw
  cases w with
  | arr ws =>
      rw [issues, issues]
      exact issuesInTurn_agree h fun _ hmem => R.item hw hmem
  | null | bool _ | num _ | str _ | obj _ => simp [issues]

theorem agree_properties (h : List.Forall₂ (AgreeNamed R follow follow' false) ks ls) :
    Agree R follow follow' same (.properties ks) (.properties ls) := by
  intro w path hw
  cases w with
  | obj members =>
      rw [issues, issues]
      exact issuesOfProperties_agree h fun _ hmem => R.member hw hmem
  | null | bool _ | num _ | str _ | arr _ => simp [issues]

theorem agree_patterns (h : List.Forall₂ (AgreeNamed R follow follow' false) pats pats') :
    Agree R follow follow' same (.patterns pats) (.patterns pats') := by
  intro w path hw
  cases w with
  | obj members =>
      rw [issues, issues]
      exact issuesOfPatterns_agree h fun _ hmem => R.member hw hmem
  | null | bool _ | num _ | str _ | arr _ => simp [issues]

theorem agree_dependencies (h : List.Forall₂ (AgreeNamed R follow follow' same) ks ls) :
    Agree R follow follow' same (.dependencies ks) (.dependencies ls) := by
  intro w path hw
  cases w with
  | obj members =>
      rw [issues, issues]
      exact issuesOfDependencies_agree h hw
  | null | bool _ | num _ | str _ | arr _ => simp [issues]

/-- What properties by name and by pattern find in each member alone. -/
theorem issuesOfMember_agree (hknown : List.Forall₂ (AgreeNamed R follow follow' false) ks ls)
    (hpatterned : List.Forall₂ (AgreeNamed R follow follow' false) pats pats') {m : String × Json}
    {path : String} (hm : R.asked false m.2) :
    issuesOfProperties follow ks [m] path ++ issuesOfPatterns follow pats [m] path = []
      ↔ issuesOfProperties follow' ls [m] path ++ issuesOfPatterns follow' pats' [m] path = [] := by
  have hall : ∀ m' ∈ [m], R.asked false m'.2 := by simpa using hm
  rw [List.append_eq_nil_iff, List.append_eq_nil_iff, issuesOfProperties_agree hknown hall,
    issuesOfPatterns_agree hpatterned hall]

theorem isOther_agree (hknown : List.Forall₂ (AgreeNamed R follow follow' false) ks ls)
    (hpatterned : List.Forall₂ (AgreeNamed R follow follow' false) pats pats') :
    isOther ks pats = isOther ls pats' := by
  funext name
  unfold isOther
  rw [isKnown_agree hknown, isPatterned_agree hpatterned]

theorem agree_onlyProperties (hknown : List.Forall₂ (AgreeNamed R follow follow' false) ks ls)
    (hpatterned : List.Forall₂ (AgreeNamed R follow follow' false) pats pats') :
    Agree R follow follow' same (.onlyProperties ks pats) (.onlyProperties ls pats') := by
  intro w path hw
  cases w with
  | obj members =>
      rw [issues, issues, isOther_agree hknown hpatterned]
      rw [List.append_eq_nil_iff, List.append_eq_nil_iff, List.flatMap_eq_nil_iff, List.flatMap_eq_nil_iff]
      refine and_congr (forall₂_congr fun m hm => ?_) ?_
      · exact issuesOfMember_agree hknown hpatterned (R.member hw hm)
      · split <;> simp
  | null | bool _ | num _ | str _ | arr _ => simp [issues]

theorem agree_allProperties {others others' : Constraint}
    (hknown : List.Forall₂ (AgreeNamed R follow follow' false) ks ls)
    (hpatterned : List.Forall₂ (AgreeNamed R follow follow' false) pats pats')
    (hothers : Agree R follow follow' false others others') :
    Agree R follow follow' same (.allProperties ks pats others) (.allProperties ls pats' others') := by
  intro w path hw
  cases w with
  | obj members =>
      rw [issues, issues, isOther_agree hknown hpatterned, List.flatMap_eq_nil_iff, List.flatMap_eq_nil_iff]
      refine forall₂_congr fun m hm => ?_
      rw [List.append_eq_nil_iff (p := _ ++ _), List.append_eq_nil_iff (p := _ ++ _),
        issuesOfMember_agree hknown hpatterned (R.member hw hm)]
      refine and_congr_right fun _ => ?_
      split
      · exact hothers m.2 _ (R.member hw hm)
      · exact Iff.rfl
  | null | bool _ | num _ | str _ | arr _ => simp [issues]

end Constructors

/-- What is found under URLs that go together agrees on the values on which it is compared. -/
def AgreeUnder (R : Matching) (follow follow' : Url → Finder) : Prop :=
  ∀ same url url', R.reference same url url' →
    ∀ w path, R.asked same w → (follow url w path = [] ↔ follow' url' w path = [])

mutual

/-- **Constraints that are alike agree** where what is found for their references does. -/
theorem agree_of_alike (hfollow : AgreeUnder R follow follow') {same : Bool} {c c' : Constraint} :
    Alike R same c c' → Agree R follow follow' same c c'
  -- only references need what is followed
  | .never => fun w path _ => by simp [issues]
  | .assert h => fun w path hw => by
      rw [issues, issues, List.map_eq_nil_iff, List.map_eq_nil_iff]
      exact h w hw
  | .all h => fun w path hw => by
      rw [issues, issues]
      exact issuesOfAll_agree (agree_of_allAlike hfollow h) hw
  | .reference h => fun w path hw => by
      rw [issues, issues]
      exact hfollow _ _ _ h w path hw
  | .anyOf h => fun w path hw => by
      rw [issues, issues, countAllowing_agree (agree_of_allAlike hfollow h) hw]
  | .oneOf h => fun w path hw => by
      rw [issues, issues, countAllowing_agree (agree_of_allAlike hfollow h) hw]
  | .not schema h => fun w path hw => by
      rw [issues, issues, (agree_of_alike hfollow h).isEmpty_eq hw]
  | .cond htest hyes hno => fun w path hw => by
      rw [issues, issues, (agree_of_alike hfollow htest).isEmpty_eq hw]
      split
      · exact agree_of_alike hfollow hyes w path hw
      · exact agree_of_alike hfollow hno w path hw
  | .items h => agree_items (agree_of_alike hfollow h)
  | .tuple h => agree_tuple (agree_of_allAlike hfollow h)
  | .itemsBeyond count h => agree_itemsBeyond count (agree_of_alike hfollow h)
  | .contains h => agree_contains (agree_of_alike hfollow h)
  | .properties h => agree_properties (agree_of_namedAlike hfollow h)
  | .patterns h => agree_patterns (agree_of_namedAlike hfollow h)
  | .onlyProperties hknown hpatterned =>
      agree_onlyProperties (agree_of_namedAlike hfollow hknown) (agree_of_namedAlike hfollow hpatterned)
  | .allProperties hknown hpatterned hothers =>
      agree_allProperties (agree_of_namedAlike hfollow hknown) (agree_of_namedAlike hfollow hpatterned)
        (agree_of_alike hfollow hothers)
  | .propertyNames h => agree_propertyNames (agree_of_alike hfollow h)
  | .dependencies h => agree_dependencies (agree_of_namedAlike hfollow h)

theorem agree_of_allAlike (hfollow : AgreeUnder R follow follow') {same : Bool}
    {ps qs : List Constraint} :
    AllAlike R same ps qs → List.Forall₂ (Agree R follow follow' same) ps qs
  | .nil => .nil
  | .cons h hrest => .cons (agree_of_alike hfollow h) (agree_of_allAlike hfollow hrest)

theorem agree_of_namedAlike (hfollow : AgreeUnder R follow follow') {α : Type} {same : Bool}
    {ks ls : List (α × Constraint)} :
    NamedAlike R same ks ls → List.Forall₂ (AgreeNamed R follow follow' same) ks ls
  | .nil => .nil
  | .cons _ h hrest => .cons ⟨rfl, agree_of_alike hfollow h⟩ (agree_of_namedAlike hfollow hrest)

end

end DecoderForge.Constraint
