import DecoderForge.Proofs.Result
import DecoderForge.Proofs.Schema.Inside
import DecoderForge.Proofs.Standalone.Demands
import DecoderForge.Standalone.Keyword

/-!
# DecoderForge — schemas that have code

A function body can be made when the schema is a flag, or an object whose keywords are known and hold
values that they take.  It then asks for a function for each schema that its keywords apply, and for nothing
else.  Both are read off the keywords here, apart from the pieces that write the code.

## The architecture

* **`takes`** — which values a keyword takes.
* **`Applies`** — the schemas that the keywords of an object apply, one constructor for each kind of place.
* **`Piece.Covers`** — when a piece can be made, and for which schemas it asks; kept by every way of putting
  pieces together.
* **`keywordsPiece_covers`** — the keywords of a schema together.
* **`demands_of_refersTo`**, **`body_covers`** — what a body demands.
-/

namespace DecoderForge.Standalone

open Piece

/-! ## Values of keywords -/

def isText (v : Json) : Bool := v.asString?.isSome

def isNumber : Json → Bool
  | .num _ => true
  | _ => false

def isFlag : Json → Bool
  | .bool _ => true
  | _ => false

/-- A type, or a list of types. -/
def isTypes : Json → Bool
  | .str name => jsonTypes.contains name
  | .arr items => items.all fun v => v.asString?.any jsonTypes.contains
  | _ => false

def isTexts : Json → Bool
  | .arr items => items.all isText
  | _ => false

def isPositive : Json → Bool
  | .num n => n.compare (.int 0) == .gt
  | _ => false

/-- Schemas, or lists of names. -/
def isDependencies : Json → Bool
  | .obj members => members.all fun m =>
    match m.2 with
    | .arr items => items.all isText
    | _ => true
  | _ => false

def isFilledList : Json → Bool
  | .arr (_ :: _) => true
  | _ => false

/-- Whether a keyword takes a value.  What is a schema is left to the schema itself. -/
def takes (keyword : String) : Json → Bool :=
  match keyword with
  | "type" => isTypes
  | "minimum" | "maximum" => isNumber
  | "exclusiveMinimum" | "exclusiveMaximum" => fun v => isNumber v || isFlag v
  | "multipleOf" => isPositive
  | "minLength" | "maxLength" | "minItems" | "maxItems" | "minProperties" | "maxProperties" =>
    fun v => v.asNat?.isSome
  | "pattern" => isText
  | "required" => isTexts
  | "properties" | "patternProperties" => fun v => v.asMembers?.isSome
  | "dependencies" => isDependencies
  | "allOf" | "anyOf" | "oneOf" => isFilledList
  | _ => fun _ => true

/-- A keyword of a schema is absent or holds a value that it takes. -/
def Site.Takes (s : Site) (keyword : String) : Prop :=
  ∀ v, s.get? keyword = some v → takes keyword v = true

/-! ## Schemas of keywords -/

/-- The schemas that the keywords of an object apply. -/
inductive Applies (members : Json.Members) : Json → Prop where
  /-- Under a name or a pattern. -/
  | named {keyword name : String} {schemas : Json.Members} {sub : Json}
      (hkeyword : keyword ∈ ["properties", "patternProperties"])
      (h : members.get? keyword = some (.obj schemas)) (hmem : (name, sub) ∈ schemas) :
      Applies members sub
  /-- Beside a property that is there. -/
  | dependency {name : String} {dependencies : Json.Members} {sub : Json}
      (h : members.get? "dependencies" = some (.obj dependencies)) (hmem : (name, sub) ∈ dependencies)
      (hsub : sub.asItems? = none) : Applies members sub
  /-- As the value of a keyword. -/
  | whole {keyword : String} {sub : Json}
      (hkeyword : keyword ∈ ["additionalProperties", "propertyNames", "contains", "not"])
      (h : members.get? keyword = some sub) : Applies members sub
  /-- For all items. -/
  | items {sub : Json} (h : members.get? "items" = some sub) (hsub : sub.asItems? = none) :
      Applies members sub
  /-- For an item of a tuple. -/
  | item {tuple : List Json} {sub : Json} (h : members.get? "items" = some (.arr tuple))
      (hmem : sub ∈ tuple) : Applies members sub
  /-- For the items behind a tuple. -/
  | rest {tuple : List Json} {sub : Json} (h : members.get? "items" = some (.arr tuple))
      (hrest : members.get? "additionalItems" = some sub) : Applies members sub
  /-- In a combination. -/
  | listed {keyword : String} {subs : List Json} {sub : Json}
      (hkeyword : keyword ∈ ["allOf", "anyOf", "oneOf"]) (h : members.get? keyword = some (.arr subs))
      (hmem : sub ∈ subs) : Applies members sub
  /-- As a branch of a condition. -/
  | branch {keyword : String} {condition sub : Json} (hkeyword : keyword ∈ ["then", "else"])
      (hif : members.get? "if" = some condition) (h : members.get? keyword = some sub) :
      Applies members sub
  /-- As a condition with a branch. -/
  | condition {keyword : String} {branch sub : Json} (hkeyword : keyword ∈ ["then", "else"])
      (h : members.get? "if" = some sub) (hbranch : members.get? keyword = some branch) :
      Applies members sub

/-! ## What a piece amounts to -/

/-- A piece that can be made exactly when `fine` holds, and then asks for functions for certain schemas.
Flags need no function. -/
structure Piece.Covers (p : Piece) (fine : Prop) (subs : Json → Prop) : Prop where
  made_iff : (∀ f, Demand.fault f ∉ p.demands) ↔ fine
  asks : fine → ∀ {sub : Json} {location : String}, .function sub location ∈ p.demands → subs sub
  asked : fine → ∀ {sub : Json}, subs sub → isFlag sub = true ∨ ∃ location, .function sub location ∈ p.demands
  noReference : ∀ r, Demand.reference r ∉ p.demands

namespace Piece.Covers

variable {p q : Piece} {fine fine' : Prop} {subs subs' : Json → Prop}

theorem congr (h : p.Covers fine subs) (hfine : fine ↔ fine')
    (hsubs : fine' → ∀ sub, subs sub ↔ subs' sub) : p.Covers fine' subs' where
  made_iff := h.made_iff.trans hfine
  asks hf _ _ hd := (hsubs hf _).mp (h.asks (hfine.mpr hf) hd)
  asked hf _ hs := h.asked (hfine.mpr hf) ((hsubs hf _).mpr hs)
  noReference := h.noReference

theorem ofCalls (calls : List Layout.Call) : (Piece.ofCalls calls).Covers True fun _ => False := by
  constructor <;> simp [Piece.ofCalls]

theorem ofFault {f : Fault} (h : ¬ fine) : (Piece.ofFault f).Covers fine subs where
  made_iff := iff_of_false (by simp [Piece.ofFault]) h
  asks hf := absurd hf h
  asked hf := absurd hf h
  noReference := by simp [Piece.ofFault]

/-- Demands for functions only. -/
theorem ofFunctions {demands : List Demand} {lines : List Nat → List Layout.Call}
    (h : ∀ d ∈ demands, ∃ sub location, d = .function sub location) :
    (Piece.mk demands lines).Covers True fun sub => ∃ location, .function sub location ∈ demands where
  made_iff := iff_of_true (fun f hf => by simpa using h _ hf) trivial
  asks _ _ location hd := ⟨location, hd⟩
  asked _ _ hs := Or.inr hs
  noReference r hr := by simpa using h _ hr

theorem constant (value : String) (lines : Nat → List Layout.Call) :
    (Piece.ask (.constant value) lines).Covers True fun _ => False := by
  constructor <;> simp [Piece.ask]

theorem function (sub : Json) (location : String) (lines : Nat → List Layout.Call) :
    (Piece.ask (.function sub location) lines).Covers True (· = sub) := by
  constructor <;> simp [Piece.ask]

theorem append (hp : p.Covers fine subs) (hq : q.Covers fine' subs') :
    (p.append q).Covers (fine ∧ fine') fun sub => subs sub ∨ subs' sub where
  made_iff := by
    rw [← hp.made_iff, ← hq.made_iff]
    simp [Piece.append, forall_and]
  asks hf sub location hd := by
    rcases List.mem_append.mp hd with hd | hd
    · exact Or.inl (hp.asks hf.1 hd)
    · exact Or.inr (hq.asks hf.2 hd)
  asked hf sub hs := by
    rcases hs with hs | hs
    · exact (hp.asked hf.1 hs).imp_right fun ⟨l, hl⟩ => ⟨l, List.mem_append_left _ hl⟩
    · exact (hq.asked hf.2 hs).imp_right fun ⟨l, hl⟩ => ⟨l, List.mem_append_right _ hl⟩
  noReference r hr := by
    rcases List.mem_append.mp hr with hr | hr
    · exact hp.noReference r hr
    · exact hq.noReference r hr

theorem empty : Piece.empty.Covers True fun _ => False := ofCalls []

theorem ite {c : Prop} [Decidable c] (hp : c → p.Covers fine subs) (hq : ¬ c → q.Covers fine subs) :
    (if c then p else q).Covers fine subs := by
  split
  · next h => exact hp h
  · next h => exact hq h

theorem nil : (Piece.concat []).Covers True fun _ => False := empty

theorem cons {rest : List Piece} (hp : p.Covers fine subs) (hrest : (Piece.concat rest).Covers fine' subs') :
    (Piece.concat (p :: rest)).Covers (fine ∧ fine') fun sub => subs sub ∨ subs' sub := hp.append hrest

/-- Schemas that are flags need not be asked for. -/
theorem flags (h : p.Covers fine fun _ => False) (hsubs : ∀ sub, subs sub → isFlag sub = true) :
    p.Covers fine subs where
  made_iff := h.made_iff
  asks hf _ _ hd := (h.asks hf hd).elim
  asked _ _ hs := Or.inl (hsubs _ hs)
  noReference := h.noReference

/-- Pieces in a row, one for each thing of a list. -/
theorem concat {α : Type} {make : α → Piece} {fine : α → Prop} {subs : α → Json → Prop} :
    ∀ {as : List α}, (∀ a ∈ as, (make a).Covers (fine a) (subs a)) →
      (Piece.concat (as.map make)).Covers (∀ a ∈ as, fine a) fun sub => ∃ a ∈ as, subs a sub
  | [], _ => empty.congr (by simp) (by simp)
  | a :: rest, h => by
      have hrest := concat fun b hb => h b (List.mem_cons_of_mem a hb)
      exact ((h a List.mem_cons_self).append hrest).congr (by simp) (by simp)

theorem wrap {first last : String} (h : p.Covers fine subs) :
    (Piece.wrap first last p).Covers fine subs := ⟨h.made_iff, h.asks, h.asked, h.noReference⟩

/-- A step that succeeds exactly when `good` holds, before a piece. -/
theorem bind {α : Type} {e : Except Fault α} {make : α → Except Fault Piece} {good : Prop}
    (hgood : (∃ a, e = .ok a) ↔ good)
    (h : ∀ a, e = .ok a → (ofExcept (make a)).Covers fine subs) :
    (ofExcept (e >>= make)).Covers (good ∧ fine) subs := by
  cases e with
  | ok a => exact (h a rfl).congr (by simp [← hgood]) fun _ _ => Iff.rfl
  | error f =>
      have hbad : ¬ good := fun hg => by simpa using hgood.mpr hg
      exact ofFault fun hf => hbad hf.1

end Piece.Covers

/-! ## Readings that succeed -/

/-- A keyword that is absent holds nothing that it would not take. -/
theorem Site.takes_of_none {s : Site} {keyword : String} (h : s.get? keyword = none) : s.Takes keyword :=
  fun v hv => absurd (h.symm.trans hv) (by simp)

theorem Site.takes_iff_of_some {s : Site} {keyword : String} {v : Json} (h : s.get? keyword = some v) :
    s.Takes keyword ↔ takes keyword v = true :=
  ⟨fun ht => ht v h, fun hv _ hw => (Option.some.inj (h.symm.trans hw)) ▸ hv⟩

/-- The strings of a list are all that it holds. -/
theorem strings_eq_ok_iff {s : Site} {keyword : String} : ∀ {items : List Json} {names : List String},
    s.strings keyword items = .ok names ↔ items = names.map .str
  | [], names => by cases names <;> simp [Site.strings]
  | .str t :: rest, names => by
      have ih := @strings_eq_ok_iff s keyword rest
      rw [Site.strings]
      constructor
      · intro h
        obtain ⟨more, hmore, rfl⟩ := map_eq_ok h
        rw [List.map_cons, ih.mp hmore]
      · intro h
        cases names with
        | nil => exact absurd h (by simp)
        | cons n more =>
            obtain ⟨hn, hmore⟩ := List.cons.inj h
            obtain rfl := Json.str.inj hn
            rw [ih.mpr hmore]
            rfl
  | .null :: _, names | .bool _ :: _, names | .num _ :: _, names | .arr _ :: _, names | .obj _ :: _, names => by
      cases names <;> simp [Site.strings]

theorem all_isText_iff {items : List Json} :
    items.all isText = true ↔ ∃ names : List String, items = names.map .str := by
  induction items with
  | nil => simp
  | cons v rest ih =>
      rw [List.all_cons, Bool.and_eq_true, ih]
      constructor
      · rintro ⟨hv, names, rfl⟩
        cases v with
        | str t => exact ⟨t :: names, rfl⟩
        | null | bool _ | num _ | arr _ | obj _ => exact absurd hv (by simp [isText, Json.asString?])
      · rintro ⟨names, h⟩
        cases names with
        | nil => exact absurd h (by simp)
        | cons n more =>
            obtain ⟨rfl, rfl⟩ := List.cons.inj h
            exact ⟨rfl, more, rfl⟩

theorem exists_strings_iff (s : Site) (keyword : String) {items : List Json} :
    (∃ names, s.strings keyword items = .ok names) ↔ items.all isText = true := by
  rw [all_isText_iff]
  exact exists_congr fun names => strings_eq_ok_iff

theorem exists_count_iff (s : Site) {keyword : String}
    (hkeyword : takes keyword = fun v => v.asNat?.isSome) :
    (∃ n, s.count keyword = .ok n) ↔ s.Takes keyword := by
  unfold Site.count
  cases hget : s.get? keyword with
  | none => simpa using Site.takes_of_none hget
  | some v =>
      rw [Site.takes_iff_of_some hget, hkeyword]
      simp only
      cases v.asNat? <;> simp

theorem exists_objectKeyword_iff (s : Site) (keyword : String) :
    (∃ members, objectKeyword s keyword = .ok members)
      ↔ ∀ v, s.get? keyword = some v → v.asMembers?.isSome = true := by
  unfold objectKeyword
  cases hget : s.get? keyword with
  | none => simp
  | some v => cases v <;> simp [Json.asMembers?]

/-- The members of a keyword that can be read are those of its object, or none. -/
theorem mem_objectKeyword_iff {s : Site} {keyword : String} {members : Json.Members}
    (h : objectKeyword s keyword = .ok members) {m : String × Json} :
    m ∈ members ↔ ∃ found, s.get? keyword = some (.obj found) ∧ m ∈ found := by
  unfold objectKeyword at h
  cases hget : s.get? keyword with
  | none =>
      simp only [hget, Except.ok.injEq] at h
      subst h
      simp
  | some v =>
      cases v with
      | obj found =>
          simp only [hget, Except.ok.injEq] at h
          subst h
          simp
      | null | bool _ | num _ | str _ | arr _ => simp [hget] at h

/-- The names that `type` lists are types exactly when its value is one that it takes. -/
theorem exists_typeNames_iff (s : Site) (value : Json) :
    (∃ names, typeNames s value = .ok names ∧ names.find? (fun n => !jsonTypes.contains n) = none)
      ↔ isTypes value = true := by
  cases value with
  | str name => simp [typeNames, isTypes]
  | arr items =>
      unfold typeNames isTypes
      constructor
      · rintro ⟨names, hnames, htypes⟩
        obtain rfl := strings_eq_ok_iff.mp hnames
        simpa [List.all_map, Json.asString?] using htypes
      · intro hall
        obtain ⟨names, rfl⟩ := all_isText_iff.mp (List.all_eq_true.mpr fun v hv => by
          have hv := List.all_eq_true.mp hall v hv
          cases v <;> simp_all [isText, Json.asString?])
        refine ⟨names, strings_eq_ok_iff.mpr rfl, ?_⟩
        simpa [List.all_map, Json.asString?] using hall
  | null | bool _ | num _ | obj _ => simp [typeNames, isTypes]

theorem exists_bound_iff {s : Site} {keyword : String} :
    (∃ n, bound s keyword = .ok n) ↔ ∀ v, s.get? keyword = some v →
      (isNumber v || (isFlag v && keyword.startsWith "exclusive")) = true := by
  unfold bound
  cases hget : s.get? keyword with
  | none => simp
  | some v =>
      cases v with
      | bool b => cases hk : keyword.startsWith "exclusive" <;> simp [isNumber, isFlag]
      | null | num _ | str _ | arr _ | obj _ => simp [isNumber, isFlag]

/-! ## Keywords -/

variable (s : Site)

theorem typePiece_covers : (typePiece s).Covers (s.Takes "type") fun _ => False := by
  unfold typePiece
  split
  · next h => exact Covers.empty.congr (by simp [Site.takes_of_none h]) fun _ _ => Iff.rfl
  · next value h =>
    have hmade : (s.Takes "type") ↔ (∃ names, typeNames s value = .ok names)
        ∧ ∀ names, typeNames s value = .ok names → names.find? (fun n => !jsonTypes.contains n) = none := by
      rw [Site.takes_iff_of_some h, show takes "type" value = isTypes value from rfl,
        ← exists_typeNames_iff s value]
      constructor
      · rintro ⟨names, hnames, hnone⟩
        refine ⟨⟨names, hnames⟩, fun names' hnames' => ?_⟩
        obtain rfl := Except.ok.inj (hnames.symm.trans hnames')
        exact hnone
      · rintro ⟨⟨names, hnames⟩, hall⟩
        exact ⟨names, hnames, hall names hnames⟩
    refine (Covers.bind Iff.rfl fun names hnames => ?_).congr hmade.symm fun _ _ => Iff.rfl
    cases hfind : names.find? fun n => !jsonTypes.contains n with
    | some n =>
        refine Covers.ofFault fun hall => ?_
        exact absurd ((hall names hnames).symm.trans hfind) (by simp)
    | none =>
        refine (Covers.ofCalls _).congr (iff_of_true trivial fun names' hnames' => ?_) fun _ _ => Iff.rfl
        obtain rfl := Except.ok.inj (hnames.symm.trans hnames')
        exact hfind

theorem enumPiece_covers : (enumPiece s).Covers True fun _ => False := by
  unfold enumPiece
  split
  · exact .empty
  · exact .constant _ _

theorem constPiece_covers : (constPiece s).Covers True fun _ => False := by
  unfold constPiece
  split
  · exact .empty
  · exact .constant _ _

theorem exists_bound_iff_takes (keyword : String)
    (hkeyword : ∀ v, takes keyword v = (isNumber v || (isFlag v && keyword.startsWith "exclusive"))) :
    (∃ n, bound s keyword = .ok n) ↔ s.Takes keyword := by
  rw [exists_bound_iff]
  exact forall_congr' fun v => by rw [hkeyword v]

/-- A divisor that is read is positive exactly when its keyword takes it. -/
theorem exists_multiple_iff :
    (∃ n, bound s "multipleOf" = .ok n ∧ ∃ lines, multipleLines s n = .ok lines)
      ↔ s.Takes "multipleOf" := by
  unfold bound
  cases hget : s.get? "multipleOf" with
  | none => simpa [multipleLines] using Site.takes_of_none hget
  | some v =>
      rw [Site.takes_iff_of_some hget, show takes "multipleOf" v = isPositive v from rfl]
      cases v with
      | num n =>
          have hlines : (∃ lines, multipleLines s (some n) = .ok lines)
              ↔ (n.compare (.int 0) == .gt) = true := by
            simp only [multipleLines]
            split
            · next h => exact iff_of_true ⟨_, rfl⟩ h
            · next h => exact iff_of_false (by simp) h
          simpa [isPositive] using hlines
      | null | bool _ | str _ | arr _ | obj _ => simp [isPositive]

theorem numericPiece_covers :
    (numericPiece s).Covers (∀ keyword ∈ ["minimum", "maximum", "exclusiveMinimum", "exclusiveMaximum",
      "multipleOf"], s.Takes keyword) fun _ => False := by
  have hplain (keyword : String) (h : keyword.startsWith "exclusive" = false) (v : Json) :
      isNumber v = (isNumber v || (isFlag v && keyword.startsWith "exclusive")) := by
    rw [h, Bool.and_false, Bool.or_false]
  have hexclusive (keyword : String) (h : keyword.startsWith "exclusive" = true) (v : Json) :
      (isNumber v || isFlag v) = (isNumber v || (isFlag v && keyword.startsWith "exclusive")) := by
    rw [h, Bool.and_true]
  have hmultiple : ∀ n, bound s "multipleOf" = .ok n →
      ((∃ lines, multipleLines s n = .ok lines) ↔ s.Takes "multipleOf") := by
    intro n hn
    rw [← exists_multiple_iff]
    constructor
    · exact fun h => ⟨n, hn, h⟩
    · rintro ⟨n', hn', h⟩
      obtain rfl := Except.ok.inj (hn.symm.trans hn')
      exact h
  unfold numericPiece
  apply Covers.wrap
  refine Covers.congr (?_ : Piece.Covers _ (s.Takes "minimum" ∧ s.Takes "maximum"
    ∧ s.Takes "exclusiveMinimum" ∧ s.Takes "exclusiveMaximum"
    ∧ (∃ n, bound s "multipleOf" = .ok n) ∧ s.Takes "multipleOf" ∧ True) fun _ => False) ?_
    fun _ _ => Iff.rfl
  · refine .bind (exists_bound_iff_takes s "minimum" (hplain _ (by simp))) fun _ _ => ?_
    refine .bind (exists_bound_iff_takes s "maximum" (hplain _ (by simp))) fun _ _ => ?_
    refine .bind (exists_bound_iff_takes s "exclusiveMinimum" (hexclusive _ (by simp))) fun _ _ => ?_
    refine .bind (exists_bound_iff_takes s "exclusiveMaximum" (hexclusive _ (by simp))) fun _ _ => ?_
    refine .bind Iff.rfl fun n hn => .bind (hmultiple n hn) fun _ _ => ?_
    exact .ofCalls _
  · -- a divisor that its keyword takes is read
    have hread : s.Takes "multipleOf" → ∃ n, bound s "multipleOf" = .ok n := by
      rw [← exists_multiple_iff]
      rintro ⟨n, hn, -⟩
      exact ⟨n, hn⟩
    simp only [List.forall_mem_cons, List.not_mem_nil, IsEmpty.forall_iff, implies_true, and_true]
    tauto

/-- A keyword that is absent leaves an empty piece. -/
theorem covers_of_none {s : Site} {keyword : String} (h : s.get? keyword = none) :
    Piece.empty.Covers (s.Takes keyword) fun _ => False :=
  Covers.empty.congr (iff_of_true trivial (Site.takes_of_none h)) fun _ _ => Iff.rfl

theorem patternPiece_covers : (patternPiece s).Covers (s.Takes "pattern") fun _ => False := by
  unfold patternPiece
  split
  · next h => exact covers_of_none h
  · next pattern h =>
    exact (Covers.constant _ _).congr (iff_of_true trivial ((Site.takes_iff_of_some h).mpr rfl))
      fun _ _ => Iff.rfl
  · next v hv h =>
    refine Covers.ofFault fun ht => ?_
    have ht : isText v = true := (Site.takes_iff_of_some h).mp ht
    cases v with
    | str pattern => exact hv pattern rfl
    | null | bool _ | num _ | arr _ | obj _ => exact absurd ht (by simp [isText, Json.asString?])

theorem stringPiece_covers :
    (stringPiece s).Covers (∀ keyword ∈ ["minLength", "maxLength", "pattern"], s.Takes keyword)
      fun _ => False := by
  unfold stringPiece
  apply Covers.wrap
  refine Covers.congr (?_ : Piece.Covers _ (s.Takes "minLength" ∧ s.Takes "maxLength" ∧ True
    ∧ s.Takes "pattern") fun _ => False ∨ False) (by simp) (by simp)
  refine .bind (exists_count_iff s rfl) fun _ _ => .bind (exists_count_iff s rfl) fun _ _ => ?_
  exact (Covers.ofCalls _).append (patternPiece_covers s)

/-! ## Keywords with schemas -/

theorem tuplePieces_covers : ∀ (i : Nat) (items : List Json),
    (Piece.concat (tuplePieces s i items)).Covers True (· ∈ items)
  | _, [] => Covers.empty.congr Iff.rfl (by simp)
  | i, sub :: rest =>
      ((Covers.function sub _ _).append (tuplePieces_covers (i + 1) rest)).congr (by simp) (by simp)

/-- The schema behind a tuple.  A flag there needs no function. -/
theorem additionalItemsPiece_covers (length : Nat) :
    (additionalItemsPiece s length).Covers True fun sub => s.get? "additionalItems" = some sub := by
  have hflag {b : Bool} (h : s.get? "additionalItems" = some (.bool b)) :
      ∀ sub, s.get? "additionalItems" = some sub → isFlag sub = true := by
    intro sub hsub
    obtain rfl := Option.some.inj (h.symm.trans hsub)
    rfl
  unfold additionalItemsPiece
  split
  · next h => exact Covers.empty.congr Iff.rfl (by simp [h])
  · next h => exact Covers.empty.flags (hflag h)
  · next h => exact (Covers.ofCalls _).flags (hflag h)
  · next rest _ _ h => exact (Covers.function rest _ _).congr Iff.rfl (by simp [h, eq_comm])

/-- The schemas that `items` and `additionalItems` apply: those of a tuple and the one behind it, or one
for all items. -/
def Site.ForItems (s : Site) (sub : Json) : Prop :=
  (∃ tuple, s.get? "items" = some (.arr tuple) ∧ (sub ∈ tuple ∨ s.get? "additionalItems" = some sub))
    ∨ (s.get? "items" = some sub ∧ sub.asItems? = none)

theorem itemsPiece_covers : (itemsPiece s).Covers True s.ForItems := by
  unfold itemsPiece Site.ForItems
  split
  · next h => exact Covers.empty.congr Iff.rfl (by simp [h])
  · next tuple h =>
    refine ((tuplePieces_covers s 0 tuple).append (additionalItemsPiece_covers s _)).congr (by simp)
      fun _ sub => ?_
    rw [h]
    constructor
    · exact fun hs => Or.inl ⟨tuple, rfl, hs⟩
    · rintro (⟨t, ht, hs⟩ | ⟨hsub, hnone⟩)
      · obtain rfl := Json.arr.inj (Option.some.inj ht)
        exact hs
      · obtain rfl := Option.some.inj hsub
        exact absurd hnone (by simp [Json.asItems?])
  · next items hitems h =>
    refine (Covers.function items _ _).congr Iff.rfl fun _ sub => ?_
    rw [h]
    constructor
    · rintro rfl
      refine Or.inr ⟨rfl, ?_⟩
      cases sub with
      | arr tuple => exact absurd rfl (hitems tuple)
      | null | bool _ | num _ | str _ | obj _ => rfl
    · rintro (⟨t, ht, -⟩ | ⟨hsub, -⟩)
      · exact absurd (Option.some.inj ht) (hitems t)
      · exact (Option.some.inj hsub).symm

/-- A piece that asks for the schema of a keyword, where there is one. -/
theorem covers_whole {s : Site} {keyword path : String} {lines : Nat → List Layout.Call} :
    (match s.get? keyword with
      | none => Piece.empty
      | some sub => .ask (s.part path sub) lines).Covers True fun sub => s.get? keyword = some sub := by
  cases h : s.get? keyword with
  | none => exact Covers.empty.congr Iff.rfl (by simp)
  | some v => exact (Covers.function v _ _).congr Iff.rfl (by simp [eq_comm])

theorem arrayPiece_covers :
    (arrayPiece s).Covers (∀ keyword ∈ ["minItems", "maxItems"], s.Takes keyword) fun sub =>
      s.ForItems sub ∨ s.get? "contains" = some sub := by
  unfold arrayPiece
  apply Covers.wrap
  refine Covers.congr (?_ : Piece.Covers _ (s.Takes "minItems" ∧ s.Takes "maxItems" ∧ True ∧ True ∧ True
    ∧ True) fun sub => s.ForItems sub ∨ s.get? "contains" = some sub ∨ False ∨ False) (by simp) (by simp)
  refine .bind (exists_count_iff s rfl) fun _ _ => .bind (exists_count_iff s rfl) fun _ _ => ?_
  exact .cons (itemsPiece_covers s) <| .cons covers_whole <| .cons (.ofCalls _) .nil

theorem requiredPiece_covers : (requiredPiece s).Covers (s.Takes "required") fun _ => False := by
  unfold requiredPiece
  split
  · next h => exact covers_of_none h
  · next items h =>
    refine Covers.congr (?_ : Piece.Covers _ (items.all isText = true ∧ True) fun _ => False) ?_ fun _ _ => Iff.rfl
    · exact .bind (exists_strings_iff s "required") fun _ _ => .ofCalls _
    · rw [and_true, Site.takes_iff_of_some h]
      exact Iff.rfl
  · next v hv h =>
    refine Covers.ofFault fun ht => ?_
    have ht : isTexts v = true := (Site.takes_iff_of_some h).mp ht
    cases v with
    | arr items => exact hv items rfl
    | null | bool _ | num _ | str _ | obj _ => exact absurd ht (by simp [isTexts])

theorem propertyCountPiece_covers :
    (propertyCountPiece s).Covers (∀ keyword ∈ ["minProperties", "maxProperties"], s.Takes keyword)
      fun _ => False := by
  unfold propertyCountPiece
  refine Covers.congr (?_ : Piece.Covers _ (s.Takes "minProperties" ∧ s.Takes "maxProperties" ∧ True)
    fun _ => False) (by simp) fun _ _ => Iff.rfl
  exact .bind (exists_count_iff s rfl) fun _ _ => .bind (exists_count_iff s rfl) fun _ _ => .ofCalls _

/-- Other properties are checked by the schema of their keyword unless that is a flag. -/
theorem additionalOf_eq_checked_iff {sub : Json} :
    additionalOf s = .checked sub ↔ s.get? "additionalProperties" = some sub ∧ isFlag sub = false := by
  unfold additionalOf
  cases h : s.get? "additionalProperties" with
  | none => simp
  | some v =>
      cases v with
      | bool b =>
          have hflag : ¬ (some (Json.bool b) = some sub ∧ isFlag sub = false) := by
            rintro ⟨hb, hflag⟩
            obtain rfl := Option.some.inj hb
            exact absurd hflag (by simp [isFlag])
          cases b <;> simpa using hflag
      | null | num _ | str _ | arr _ | obj _ =>
          constructor
          · intro hv
            obtain rfl := Additional.checked.inj hv
            exact ⟨rfl, rfl⟩
          · rintro ⟨hv, -⟩
            obtain rfl := Option.some.inj hv
            rfl

theorem function_mem_loopDemands_iff {known : List String} {patterns : Json.Members} {additional : Additional}
    {names : Option Json} {sub : Json} {location : String} :
    .function sub location ∈ loopDemands s known patterns additional names ↔
      (∃ p ∈ patterns, .function sub location = s.part ("patternProperties/" ++ p.1) p.2)
      ∨ (additional = .checked sub ∧ location = s.inside "additionalProperties")
      ∨ (names = some sub ∧ location = s.inside "propertyNames") := by
  unfold loopDemands
  cases additional <;> cases names <;> simp [patternConstant, Site.part, eq_comm]

/-- The loop over properties asks for constants and functions only. -/
theorem plain_of_mem_loopDemands {known : List String} {patterns : Json.Members} {additional : Additional}
    {names : Option Json} {d : Demand} (hd : d ∈ loopDemands s known patterns additional names) :
    (∀ f, d ≠ .fault f) ∧ ∀ r, d ≠ .reference r := by
  unfold loopDemands at hd
  cases additional <;> cases names <;>
    simp only [List.mem_append, List.mem_flatMap, List.mem_cons, List.not_mem_nil, or_false,
      patternConstant, Site.part] at hd <;>
    grind

theorem loopPiece_covers (known : List String) (patterns : Json.Members) :
    (loopPiece s known patterns).Covers True fun sub => (∃ name, (name, sub) ∈ patterns)
      ∨ s.get? "additionalProperties" = some sub ∨ s.get? "propertyNames" = some sub := by
  unfold loopPiece
  refine Covers.ite (fun _ => ⟨iff_of_true (fun f hf => (plain_of_mem_loopDemands s hf).1 f rfl) trivial, ?_, ?_,
      fun r hr => (plain_of_mem_loopDemands s hr).2 r rfl⟩) fun hneeded => ?_
  · intro _ sub location h
    rcases (function_mem_loopDemands_iff s).mp h with ⟨p, hp, h⟩ | ⟨h, -⟩ | ⟨h, -⟩
    · obtain ⟨rfl, -⟩ := Demand.function.inj h
      exact Or.inl ⟨p.1, hp⟩
    · exact Or.inr (Or.inl ((additionalOf_eq_checked_iff s).mp h).1)
    · exact Or.inr (Or.inr h)
  · intro _ sub hsub
    rcases hsub with ⟨name, hp⟩ | h | h
    · exact Or.inr ⟨_, (function_mem_loopDemands_iff s).mpr (Or.inl ⟨_, hp, rfl⟩)⟩
    · cases hflag : isFlag sub with
      | true => exact Or.inl rfl
      | false =>
          have hchecked := (additionalOf_eq_checked_iff s).mpr ⟨h, hflag⟩
          exact Or.inr ⟨_, (function_mem_loopDemands_iff s).mpr (Or.inr (Or.inl ⟨hchecked, rfl⟩))⟩
    · exact Or.inr ⟨_, (function_mem_loopDemands_iff s).mpr (Or.inr (Or.inr ⟨h, rfl⟩))⟩
  · -- without a loop there are no patterns and no names, and other properties are not checked
    refine Covers.empty.flags fun sub hsub => ?_
    simp only [Bool.not_eq_true, Bool.or_eq_false_iff, Bool.not_eq_false', List.isEmpty_iff,
      Option.isSome_eq_false_iff, Option.isNone_iff_eq_none] at hneeded
    obtain ⟨⟨rfl, hnames⟩, hadditional⟩ := hneeded
    rcases hsub with ⟨name, hp⟩ | h | h
    · exact absurd hp List.not_mem_nil
    · by_contra hflag
      rw [(additionalOf_eq_checked_iff s).mpr ⟨h, by simpa using hflag⟩] at hadditional
      exact absurd hadditional (by simp)
    · exact absurd (h.symm.trans hnames) (by simp)

/-- The schemas under the names of a keyword that holds an object. -/
def Site.Holds (s : Site) (keyword : String) (sub : Json) : Prop :=
  ∃ schemas name, s.get? keyword = some (.obj schemas) ∧ (name, sub) ∈ schemas

/-- The schemas that are read of a keyword that has to be an object. -/
theorem exists_mem_objectKeyword_iff {s : Site} {keyword : String} {members : Json.Members}
    (h : objectKeyword s keyword = .ok members) {sub : Json} :
    (∃ name, (name, sub) ∈ members) ↔ s.Holds keyword sub := by
  simp only [mem_objectKeyword_iff h]
  constructor
  · rintro ⟨name, found, hfound, hmem⟩
    exact ⟨found, name, hfound, hmem⟩
  · rintro ⟨found, name, hfound, hmem⟩
    exact ⟨name, found, hfound, hmem⟩

/-- Properties that are named, and those that patterns, other properties and names are held to. -/
theorem propertiesPiece_covers :
    (propertiesPiece s).Covers (∀ keyword ∈ ["properties", "patternProperties"], s.Takes keyword) fun sub =>
      s.Holds "properties" sub ∨ s.Holds "patternProperties" sub
        ∨ s.get? "additionalProperties" = some sub ∨ s.get? "propertyNames" = some sub := by
  unfold propertiesPiece
  refine Covers.congr (?_ : Piece.Covers _ (s.Takes "properties" ∧ True ∧ s.Takes "patternProperties" ∧ True)
    _) (by simp) fun _ _ => Iff.rfl
  refine .bind (exists_objectKeyword_iff s "properties") fun properties hproperties => ?_
  refine Covers.append ?_ (.bind (exists_objectKeyword_iff s "patternProperties") fun patterns hpatterns => ?_)
  · have hone (p : String × Json) : (propertyPiece s p).Covers True (· = p.2) := by
      unfold propertyPiece
      exact .function _ _ _
    refine (Covers.concat fun p _ => hone p).congr (by simp) fun _ sub => ?_
    rw [← exists_mem_objectKeyword_iff hproperties]
    simp
  · refine (loopPiece_covers s _ patterns).congr Iff.rfl fun _ sub => ?_
    rw [exists_mem_objectKeyword_iff hpatterns]

theorem dependencyPiece_covers (m : String × Json) :
    (dependencyPiece s m).Covers (∀ items, m.2 = .arr items → items.all isText = true)
      fun sub => sub = m.2 ∧ m.2.asItems? = none := by
  obtain ⟨name, v⟩ := m
  unfold dependencyPiece
  cases v with
  | arr items =>
      simp only
      refine Covers.congr (?_ : Piece.Covers _ (items.all isText = true ∧ True) fun _ => False) (by simp)
        (by simp [Json.asItems?])
      exact .bind (exists_strings_iff s "dependencies") fun _ _ => .ofCalls _
  | null | bool _ | num _ | str _ | obj _ =>
      exact (Covers.function _ _ _).congr (by simp) (by simp [Json.asItems?])

theorem takes_dependencies_iff : s.Takes "dependencies" ↔
    (∀ v, s.get? "dependencies" = some v → v.asMembers?.isSome = true)
      ∧ ∀ members, s.get? "dependencies" = some (.obj members) →
        ∀ m ∈ members, ∀ items, m.2 = .arr items → items.all isText = true := by
  have hobj (members : Json.Members) : isDependencies (.obj members) = true
      ↔ ∀ m ∈ members, ∀ items, m.2 = .arr items → items.all isText = true := by
    rw [isDependencies, List.all_eq_true]
    refine forall₂_congr fun m _ => ?_
    cases m.2 <;> simp
  cases h : s.get? "dependencies" with
  | none => exact iff_of_true (Site.takes_of_none h) (by simp)
  | some v =>
      rw [Site.takes_iff_of_some h, show takes "dependencies" v = isDependencies v from rfl]
      cases v with
      | obj members => simpa [Json.asMembers?] using hobj members
      | null | bool _ | num _ | str _ | arr _ => simp [isDependencies, Json.asMembers?]

theorem dependenciesPiece_covers :
    (dependenciesPiece s).Covers (s.Takes "dependencies") fun sub =>
      s.Holds "dependencies" sub ∧ sub.asItems? = none := by
  unfold dependenciesPiece
  refine Covers.congr (.bind (exists_objectKeyword_iff s "dependencies") fun members hmembers => ?_)
    (takes_dependencies_iff s).symm fun _ _ => Iff.rfl
  refine (Covers.concat fun m _ => dependencyPiece_covers s m).congr ?_ fun _ sub => ?_
  · simp only [mem_objectKeyword_iff hmembers]
    constructor
    · exact fun h found hfound m hm => h m ⟨found, hfound, hm⟩
    · exact fun h m ⟨found, hfound, hm⟩ => h found hfound m hm
  · rw [← exists_mem_objectKeyword_iff hmembers]
    constructor
    · rintro ⟨⟨name, v⟩, hm, rfl, hnone⟩
      exact ⟨⟨name, hm⟩, hnone⟩
    · rintro ⟨⟨name, hm⟩, hnone⟩
      exact ⟨_, hm, rfl, hnone⟩

theorem objectPiece_covers :
    (objectPiece s).Covers (∀ keyword ∈ ["required", "minProperties", "maxProperties", "properties",
      "patternProperties", "dependencies"], s.Takes keyword) fun sub =>
      s.Holds "properties" sub ∨ s.Holds "patternProperties" sub
        ∨ s.get? "additionalProperties" = some sub ∨ s.get? "propertyNames" = some sub
        ∨ (s.Holds "dependencies" sub ∧ sub.asItems? = none) := by
  unfold objectPiece
  apply Covers.wrap
  refine Covers.congr (.cons (requiredPiece_covers s) <| .cons (propertyCountPiece_covers s) <|
    .cons (propertiesPiece_covers s) <| .cons (dependenciesPiece_covers s) .nil) ?_ ?_
  · simp only [List.forall_mem_cons, List.not_mem_nil, IsEmpty.forall_iff, implies_true, and_true, and_assoc]
  · simp only [false_or, or_false, or_assoc, implies_true]

/-! ## Combinations -/

theorem function_of_mem_listDemands {keyword : String} {d : Demand} : ∀ {i : Nat} {items : List Json},
    d ∈ listDemands s keyword i items → ∃ sub location, d = .function sub location
  | _, [], h => absurd h (by simp [listDemands])
  | _, _ :: _, h => by
      rcases List.mem_cons.mp h with rfl | h
      · exact ⟨_, _, rfl⟩
      · exact function_of_mem_listDemands h

theorem function_mem_listDemands_iff {keyword : String} {sub : Json} : ∀ (i : Nat) (items : List Json),
    (∃ location, .function sub location ∈ listDemands s keyword i items) ↔ sub ∈ items
  | _, [] => by simp [listDemands]
  | i, v :: rest => by
      simp only [listDemands, List.mem_cons, exists_or, function_mem_listDemands_iff (i + 1) rest]
      simp [Site.part]

theorem listPiece_covers {keyword : String} (hkeyword : takes keyword = isFilledList)
    (lines : List Nat → List Layout.Call) :
    (listPiece s keyword lines).Covers (s.Takes keyword) fun sub =>
      ∃ subs, s.get? keyword = some (.arr subs) ∧ sub ∈ subs := by
  unfold listPiece
  split
  · next h => exact (covers_of_none h).congr Iff.rfl (by simp [h])
  · next v rest h =>
    have htakes : s.Takes keyword := (Site.takes_iff_of_some h).mpr (by rw [hkeyword]; rfl)
    refine (Covers.ofFunctions fun d hd => function_of_mem_listDemands s hd).congr (by simpa using htakes)
      fun _ sub => ?_
    rw [function_mem_listDemands_iff, h]
    simp
  · next v hv h =>
    refine Covers.ofFault fun ht => ?_
    have ht : isFilledList v = true := by
      rw [Site.takes_iff_of_some h, hkeyword] at ht
      exact ht
    unfold isFilledList at ht
    split at ht
    · next sub rest => exact hv sub rest rfl
    · exact absurd ht (by simp)

theorem notPiece_covers : (notPiece s).Covers True fun sub => s.get? "not" = some sub := covers_whole

/-- The schemas of a condition that has a branch. -/
def Site.ForCondition (s : Site) (sub : Json) : Prop :=
  ∃ condition keyword branch, s.get? "if" = some condition ∧ keyword ∈ ["then", "else"]
    ∧ s.get? keyword = some branch ∧ (sub = condition ∨ sub = branch)

theorem conditionPiece_covers : (conditionPiece s).Covers True s.ForCondition := by
  have hcondition (sub : Json) : s.ForCondition sub ↔ ∃ condition, s.get? "if" = some condition
      ∧ ((∃ branch, s.get? "then" = some branch ∧ (sub = condition ∨ sub = branch))
        ∨ ∃ branch, s.get? "else" = some branch ∧ (sub = condition ∨ sub = branch)) := by
    simp [Site.ForCondition, or_and_right, exists_or]
  unfold conditionPiece
  simp only
  split
  · next h => exact Covers.empty.congr Iff.rfl (by simp [hcondition, h])
  · next h ht he => exact Covers.empty.congr Iff.rfl (by simp [hcondition, ht, he])
  · next c t hc ht he =>
    refine (Covers.ofFunctions (by simp [Site.part])).congr Iff.rfl fun _ sub => ?_
    rw [hcondition, hc, ht, he]
    simp [Site.part, exists_or, or_comm]
  · next c e hc ht he =>
    refine (Covers.ofFunctions (by simp [Site.part])).congr Iff.rfl fun _ sub => ?_
    rw [hcondition, hc, ht, he]
    simp [Site.part, exists_or, or_comm]
  · next c t e hc ht he =>
    refine (Covers.ofFunctions (by simp [Site.part])).congr Iff.rfl fun _ sub => ?_
    rw [hcondition, hc, ht, he]
    simp [Site.part, exists_or]
    tauto

/-! ## All keywords -/

/-- What the keywords apply, gathered by kind of place. -/
theorem applies_iff {sub : Json} : Applies s.members sub ↔
    s.ForItems sub ∨ s.get? "contains" = some sub
      ∨ s.Holds "properties" sub ∨ s.Holds "patternProperties" sub
      ∨ s.get? "additionalProperties" = some sub ∨ s.get? "propertyNames" = some sub
      ∨ (s.Holds "dependencies" sub ∧ sub.asItems? = none)
      ∨ (∃ keyword ∈ ["allOf", "anyOf", "oneOf"], ∃ subs, s.get? keyword = some (.arr subs) ∧ sub ∈ subs)
      ∨ s.get? "not" = some sub ∨ s.ForCondition sub := by
  unfold Site.ForItems Site.Holds Site.ForCondition Site.get?
  constructor
  · intro h
    cases h with
    | named hkeyword h hmem =>
        simp only [List.mem_cons, List.not_mem_nil, or_false] at hkeyword
        rcases hkeyword with rfl | rfl <;> grind
    | dependency h hmem hsub => grind
    | whole hkeyword h =>
        simp only [List.mem_cons, List.not_mem_nil, or_false] at hkeyword
        rcases hkeyword with rfl | rfl | rfl | rfl <;> simp [h]
    | items h hsub => grind
    | item h hmem => grind
    | rest h hrest => grind
    | listed hkeyword h hmem => grind
    | branch hkeyword hif h => grind
    | condition hkeyword h hbranch => grind
  · rintro ((⟨tuple, h, hmem | hrest⟩ | ⟨h, hsub⟩) | h | ⟨schemas, name, h, hmem⟩ | ⟨schemas, name, h, hmem⟩
      | h | h | ⟨⟨schemas, name, h, hmem⟩, hsub⟩ | ⟨keyword, hkeyword, subs, h, hmem⟩ | h
      | ⟨condition, keyword, branch, hif, hkeyword, h, rfl | rfl⟩)
    · exact .item h hmem
    · exact .rest h hrest
    · exact .items h hsub
    · exact .whole (by simp) h
    · exact .named (by simp) h hmem
    · exact .named (by simp) h hmem
    · exact .whole (by simp) h
    · exact .whole (by simp) h
    · exact .dependency h hmem hsub
    · exact .listed hkeyword h hmem
    · exact .whole (by simp) h
    · exact .condition hkeyword hif h
    · exact .branch hkeyword hif h

/-- The keywords of which not every value is taken. -/
def choosyKeywords : List String :=
  ["type", "minimum", "maximum", "exclusiveMinimum", "exclusiveMaximum", "multipleOf",
    "minLength", "maxLength", "pattern", "minItems", "maxItems",
    "required", "minProperties", "maxProperties", "properties", "patternProperties", "dependencies",
    "allOf", "anyOf", "oneOf"]

theorem takes_of_notMem {keyword : String} (h : keyword ∉ choosyKeywords) (v : Json) : takes keyword v = true := by
  unfold takes
  split <;> first | rfl | exact absurd h (by decide)

/-- **The keywords of a schema together.** -/
theorem keywordsPiece_covers (validateFormats : Bool) :
    (keywordsPiece validateFormats s).Covers
      ((∀ m ∈ s.members, isKnown validateFormats m.1 = true) ∧ ∀ keyword, s.Takes keyword)
      (Applies s.members) := by
  unfold keywordsPiece
  split
  · next keyword v hfind =>
    refine Covers.ofFault fun h => ?_
    have hunknown := List.find?_some hfind
    have hknown := h.1 _ (List.mem_of_find?_eq_some hfind)
    simp [hknown] at hunknown
  · next hfind =>
    have hknown : ∀ m ∈ s.members, isKnown validateFormats m.1 = true := by
      simpa [List.find?_eq_none] using hfind
    have hall : (∀ keyword, s.Takes keyword) ↔ ∀ keyword ∈ choosyKeywords, s.Takes keyword := by
      refine ⟨fun h keyword _ => h keyword, fun h keyword => ?_⟩
      by_cases hmem : keyword ∈ choosyKeywords
      · exact h keyword hmem
      · exact fun v _ => takes_of_notMem hmem v
    refine Covers.congr (.cons (.ofCalls _) <| .cons (typePiece_covers s) <| .cons (enumPiece_covers s) <|
      .cons (constPiece_covers s) <| .cons (numericPiece_covers s) <| .cons (stringPiece_covers s) <|
      .cons (arrayPiece_covers s) <| .cons (objectPiece_covers s) <| .cons (listPiece_covers s rfl _) <|
      .cons (listPiece_covers s rfl _) <| .cons (listPiece_covers s rfl _) <| .cons (notPiece_covers s) <|
      .cons (conditionPiece_covers s) <| .cons (.ofCalls _) .nil) ?_ fun _ sub => ?_
    · rw [hall]
      simp only [choosyKeywords, List.forall_mem_cons, List.not_mem_nil, IsEmpty.forall_iff, implies_true, and_true,
        true_and, and_assoc]
      tauto
    · rw [applies_iff]
      simp [or_assoc]

/-! ## Bodies -/

/-- A schema is a reference, whatever stands beside it. -/
def RefersTo (schema : Json) (r : String) : Prop := schema.get? "$ref" = some (.str r)

/-- A schema that has a body, whatever its reference leads to. -/
def HasBody (validateFormats : Bool) : Json → Prop
  | .bool _ => True
  | .obj members =>
    match Json.Members.get? members "$ref" with
    | some (.str _) => True
    | some _ => False
    | none => (∀ m ∈ members, isKnown validateFormats m.1 = true)
        ∧ ∀ keyword v, Json.Members.get? members keyword = some v → takes keyword v = true
  | _ => False

/-- The schemas that the keywords of a schema apply, if it is no reference. -/
def HasPart (schema sub : Json) : Prop :=
  ∃ members, schema = .obj members ∧ Json.Members.get? members "$ref" = none ∧ Applies members sub

/-- The body of a reference asks for the function of its target. -/
theorem demands_of_refersTo (validateFormats : Bool) {schema : Json} {r : String} (h : RefersTo schema r)
    (location : String) : (body validateFormats schema location).demands = [.reference r] := by
  cases schema with
  | obj members =>
      simp only [body, Site.get?, show Json.Members.get? members "$ref" = some (.str r) from h]
      rfl
  | null | bool _ | num _ | str _ | arr _ => exact absurd h (by simp [RefersTo, Json.get?])

/-- **The body of any other schema** can be made if it has one, and asks for its parts. -/
theorem body_covers (validateFormats : Bool) {schema : Json} (h : ∀ r, ¬ RefersTo schema r)
    (location : String) :
    (body validateFormats schema location).Covers (HasBody validateFormats schema) (HasPart schema) := by
  have hnone (v : Json) (hv : ∀ members, v ≠ .obj members) (sub : Json) : ¬ HasPart v sub :=
    fun ⟨members, hmembers, _⟩ => hv members hmembers
  cases schema with
  | bool b =>
      have hcovers := (Covers.ofCalls (body validateFormats (.bool b) location |>.lines [])).congr Iff.rfl
        fun _ sub => (iff_false_right (hnone (.bool b) (by simp) sub)).mpr id
      cases b <;> exact hcovers
  | obj members =>
      simp only [body, Site.get?]
      cases hget : Json.Members.get? members "$ref" with
      | none =>
          refine (keywordsPiece_covers ⟨members, location⟩ validateFormats).congr ?_ fun _ sub => ?_
          · simp only [HasBody, hget]
            exact Iff.rfl
          · constructor
            · exact fun hsub => ⟨members, rfl, hget, hsub⟩
            · rintro ⟨_, hm, -, hsub⟩
              obtain rfl := Json.obj.inj hm
              exact hsub
      | some v =>
          cases v with
          | str r => exact absurd hget (h r)
          | null | bool _ | num _ | arr _ | obj _ => exact .ofFault (by simp [HasBody, hget])
  | null | num _ | str _ | arr _ => exact .ofFault (by simp [HasBody])

end DecoderForge.Standalone
