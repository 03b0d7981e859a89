import DecoderForge.Proofs.Standalone.Acceptable
import DecoderForge.Proofs.Standalone.Passing

/-!
# DecoderForge — keywords mean what their code demands

The lines for a keyword demand of a value what the engine demands by the keyword.  These are the keywords that speak
of a value itself and not of the values inside it by way of other schemas.

## The architecture

* **`Legible`** — an object that the engine can read, and of which it enforces nothing without code.
* **`Reader.Says`** — whether a value passes a keyword of an object.
* **`…_means`** — one lemma per keyword, or group of keywords.
-/

namespace DecoderForge.Standalone

open Layout (Call)
open SchemaReading

/-! ## Keywords -/

/-- What surrounds a keyword of an object in which references are as they are written. -/
def surroundingsAsWritten (d : Dialect) (members : Json.Members) : Surroundings :=
  ⟨d, members, partsWith (Meaning.read d) members⟩

/-- Whether a keyword of an object has code: one of the supported, but for the items behind a list that is not
there. -/
def isCoded (members : Json.Members) (keyword : String) : Bool :=
  supportedKeywords.contains keyword
    && (keyword != "additionalItems" || (match members.get? "items" with
      | some (.arr _) => true
      | _ => false))

/-- Whether a keyword with its value demands that a text is encoded content: an encoding in base64 where no
media type stands beside it, or a text or an encoding of JSON. -/
def DemandsContent (s : Surroundings) (keyword : String) (v : Json) : Prop :=
  s.dialect.draft ≠ .draft4
    ∧ (keyword = "contentEncoding" ∧ v = .str "base64" ∧ s.get? "contentMediaType" = none
      ∨ keyword = "contentMediaType" ∧ v = .str "application/json"
        ∧ (s.get? "contentEncoding" = none ∨ s.get? "contentEncoding" = some (.str "base64")))

/-- An encoding counts where it is the only one to speak of content. -/
theorem eq_any_of_readEncoding {s : Surroundings} (hdraft : s.dialect.draft ≠ .draft4) {v : Json} {c : Constraint}
    (h : readEncoding s v = .ok c) (hnone : ¬ DemandsContent s "contentEncoding" v) : c = .any := by
  unfold readEncoding at h
  split at h
  · exact (Except.ok.inj h).symm
  · next hmedia =>
    split at h
    · next encoding =>
      have hbase : encoding ≠ "base64" := by
        rintro rfl
        exact hnone ⟨hdraft, Or.inl ⟨rfl, rfl, by simpa using hmedia⟩⟩
      rw [if_neg (by simpa using hbase)] at h
      exact (Except.ok.inj h).symm
    · cases h

/-- A media type counts where it is that of JSON, unless an unknown encoding stands beside it. -/
theorem eq_any_of_readMediaType {s : Surroundings} (hdraft : s.dialect.draft ≠ .draft4) {v : Json} {c : Constraint}
    (h : readMediaType s v = .ok c) (hnone : ¬ DemandsContent s "contentMediaType" v) : c = .any := by
  unfold readMediaType at h
  split at h
  · next media =>
    split at h
    · exact (Except.ok.inj h).symm
    · next hjson =>
      obtain rfl : media = "application/json" := by simpa using hjson
      split at h
      · next hencoding => exact absurd ⟨hdraft, Or.inr ⟨rfl, rfl, Or.inl hencoding⟩⟩ hnone
      · next encoding hencoding =>
        have hbase : encoding ≠ "base64" := by
          rintro rfl
          exact hnone ⟨hdraft, Or.inr ⟨rfl, rfl, Or.inr hencoding⟩⟩
        rw [if_neg (by simpa using hbase)] at h
        exact (Except.ok.inj h).symm
      · cases h
  · cases h

/-- **Of the keywords that never have code** the engine enforces those that demand content. -/
theorem eq_any_of_unsupported {s : Surroundings} {keyword : String} {v : Json} {c : Constraint}
    (hknown : isKnown s.dialect.formats keyword = true) (hunsupported : supportedKeywords.contains keyword = false)
    (h : readKeyword s keyword v = .ok c) (hnone : ¬ DemandsContent s keyword v) : c = .any := by
  unfold readKeyword at h
  split at h
  · exact (Except.ok.inj h).symm
  · next hdraft =>
    split at h
    case h_12 =>
      -- with formats in force a schema with this keyword is refused
      have hformats : s.dialect.formats = false := by
        simpa [isKnown, supportedKeywords, ignoredKeywords] using hknown
      unfold readFormat at h
      rw [hformats] at h
      exact (Except.ok.inj h).symm
    case h_32 => exact eq_any_of_readMediaType (by simpa [isKeywordOf] using hdraft) h hnone
    case h_33 => exact eq_any_of_readEncoding (by simpa [isKeywordOf] using hdraft) h hnone
    case h_34 => exact (Except.ok.inj h).symm
    all_goals exact absurd hunsupported (by decide)

/-- An object that the engine can read, where it enforces nothing that has no code. -/
structure Legible (d : Dialect) (members : Json.Members) : Prop where
  readable : ∀ m ∈ members, ∃ c, readKeyword (surroundingsAsWritten d members) m.1 m.2 = .ok c
  content : ∀ m ∈ members, ¬ DemandsContent (surroundingsAsWritten d members) m.1 m.2
  /-- The engine rejects every array for items behind none. -/
  additional : members.get? "items" = some (.bool false) → members.get? "additionalItems" = none
  /-- Draft 4 does not know exclusive bounds that are numbers. -/
  bounds : d.draft = .draft4 → ∀ keyword ∈ ["exclusiveMinimum", "exclusiveMaximum"], ∀ n,
    members.get? keyword ≠ some (.num n)
  /-- Names are given once, and numbers in the form in which every number can be written. -/
  names : (members.map Prod.fst).Nodup
  canonical : (Json.obj members).HasCanonicalNumbers

namespace Legible

variable {d : Dialect} {members : Json.Members} {keyword : String} {v : Json} (h : Legible d members)

include h

theorem exists_read (hget : members.get? keyword = some v) :
    ∃ c, readKeyword (surroundingsAsWritten d members) keyword v = .ok c := h.readable _ (Json.mem_of_get? hget)

theorem canonical_of_get? (hget : members.get? keyword = some v) : v.HasCanonicalNumbers :=
  h.canonical.inside (Json.inside_of_get? hget)

theorem number {n : Json.Number} (hget : members.get? keyword = some (.num n)) : n.IsCanonical :=
  h.canonical_of_get? hget n (Json.mem_values_self _)

/-- What has no code is not enforced. -/
theorem read_of_not_isCoded (hknown : isKnown d.formats keyword = true) (hcoded : isCoded members keyword = false)
    (hget : members.get? keyword = some v) : readKeyword (surroundingsAsWritten d members) keyword v = .ok .any := by
  obtain ⟨c, hc⟩ := h.exists_read hget
  cases hsupported : supportedKeywords.contains keyword with
  | false =>
      obtain rfl := eq_any_of_unsupported hknown hsupported hc (h.content _ (Json.mem_of_get? hget))
      exact hc
  | true =>
      -- the one keyword that has code only beside a list of items
      unfold isCoded at hcoded
      rw [hsupported, Bool.true_and, Bool.or_eq_false_iff, bne_eq_false_iff_eq] at hcoded
      obtain ⟨rfl, hitems⟩ := hcoded
      show readAdditionalItems (surroundingsAsWritten d members) v = .ok .any
      unfold readAdditionalItems
      split
      · next items hlist => simp [show members.get? "items" = some (.arr items) from hlist] at hitems
      · next items _ hlist => simp [show members.get? "items" = some (.arr items) from hlist] at hitems
      · next hfalse => simp [h.additional hfalse] at hget
      · rfl

end Legible

namespace Reader

/-- What surrounds a keyword of an object. -/
abbrev surroundings (E : Reader) (members : Json.Members) : Surroundings := surroundingsAsWritten E.dialect members

/-- Whether a value passes a keyword of an object, if the object has it. -/
def Says (E : Reader) (members : Json.Members) (keyword : String) (w : Json) (path : String) : Prop :=
  ∀ v, members.get? keyword = some v →
    ∃ c, readKeyword (E.surroundings members) keyword v = .ok c ∧ c.issues E.follow w path = []

variable {E : Reader} {members : Json.Members} {keyword : String} {v w : Json} {path : String}

theorem says_of_none (h : members.get? keyword = none) : E.Says members keyword w path ↔ True := by
  simp [Says, h]

theorem says_iff {c : Constraint} (hget : members.get? keyword = some v)
    (hread : readKeyword (E.surroundings members) keyword v = .ok c) :
    E.Says members keyword w path ↔ c.issues E.follow w path = [] := by
  simp [Says, hget, hread]

theorem says_of_any (hget : members.get? keyword = some v)
    (hread : readKeyword (E.surroundings members) keyword v = .ok .any) : E.Says members keyword w path ↔ True := by
  rw [says_iff hget hread, iff_true]
  exact Constraint.issues_any w

/-- An assertion is what it finds wrong. -/
theorem says_assert {a : Assertion} (hget : members.get? keyword = some v)
    (hread : readKeyword (E.surroundings members) keyword v = .ok (.assert a)) :
    E.Says members keyword w path ↔ a.faults w = [] := by
  rw [says_iff hget hread, Constraint.assert_eq_nil_iff]

end Reader

open Reader Piece

variable {E : Reader} {s : Site} {ruled : Bool}

/-! ## Types -/

theorem word_of_ofWord? {word : String} {t : TypeName} (h : TypeName.ofWord? word = some t) : t.word = word := by
  have hword : (t.word == word) = true := List.find?_some (p := fun t : TypeName => t.word == word) h
  exact eq_of_beq hword

/-- Names that the engine reads are those of types. -/
theorem strings_of_typeNames (keyword : String) : ∀ {items : List Json} {names : List TypeName},
    items.mapM typeName = .ok names → s.strings keyword items = .ok (names.map TypeName.word)
  | [], names, h => by
      obtain rfl : [] = names := Except.ok.inj h
      rfl
  | item :: rest, names, h => by
      rw [List.mapM_cons] at h
      obtain ⟨t, hitem, h⟩ := bind_eq_ok h
      obtain ⟨ts, hrest, h⟩ := bind_eq_ok h
      obtain rfl : t :: ts = names := Except.ok.inj h
      cases item with
      | str word =>
          simp only [typeName] at hitem
          split at hitem
          · next hword =>
            obtain rfl := Except.ok.inj hitem
            rw [Site.strings, strings_of_typeNames keyword hrest, ← word_of_ofWord? hword]
            rfl
          · cases hitem
      | null | bool _ | num _ | arr _ | obj _ => cases hitem

theorem typeNames_of_readType {draft : Draft} {v : Json} {c : Constraint} (hread : readType draft v = .ok c) :
    ∃ names : List TypeName, typeNames s v = .ok (names.map TypeName.word) ∧ c = .assert (.type draft names) := by
  cases v with
  | str word =>
      simp only [readType] at hread
      split at hread
      · next t hword =>
        exact ⟨[t], by rw [typeNames, ← word_of_ofWord? hword]; rfl, (Except.ok.inj hread).symm⟩
      · cases hread
  | arr items =>
      obtain ⟨names, hnames, hc⟩ := map_eq_ok hread
      exact ⟨names, strings_of_typeNames "type" hnames, hc.symm⟩
  | null | bool _ | num _ | obj _ => cases hread

variable (h : Legible E.dialect s.members)

include h

theorem typePiece_means : (typePiece s).Means E ruled false (E.Says s.members "type") := by
  unfold typePiece
  cases hget : s.get? "type" with
  | none => exact means_empty.congr fun _ _ => (says_of_none hget).symm
  | some v =>
      obtain ⟨c, hc⟩ := h.exists_read hget
      obtain ⟨names, hnames, rfl⟩ := typeNames_of_readType (s := s) hc
      have hall : (names.map TypeName.word).find? (fun n => !jsonTypes.contains n) = none := by
        refine List.find?_eq_none.mpr fun n hn => ?_
        obtain ⟨t, -, rfl⟩ := List.mem_map.mp hn
        cases t <;> decide
      simp only [hnames, bind, Except.bind, hall]
      refine means_ofCalls [.types names] (by simp [Check.calls]) (.single trivial fun w path => ?_)
      exact (says_assert hget hc).symm

/-! ## Constants -/

theorem enumPiece_means : (enumPiece s).Means E ruled false (E.Says s.members "enum") := by
  unfold enumPiece
  cases hget : s.get? "enum" with
  | none => exact means_empty.congr fun _ _ => (says_of_none hget).symm
  | some v =>
      refine means_ask (fun c => .enum c v) (fun _ => rfl) (fun _ => rfl)
        (fun n hn => ⟨hn, h.canonical_of_get? hget⟩) fun n _ w path => ?_
      obtain ⟨c, hc⟩ := h.exists_read hget
      cases v with
      | arr vs =>
          rw [says_assert (a := .enum vs) hget rfl]
          simp [Check.Passes]
      | null | bool _ | num _ | str _ | obj _ => cases hc

theorem constPiece_means : (constPiece s).Means E ruled false (E.Says s.members "const") := by
  unfold constPiece
  cases hget : s.get? "const" with
  | none => exact means_empty.congr fun _ _ => (says_of_none hget).symm
  | some v =>
      refine means_ask (fun c => .const c v) (fun _ => rfl) (fun _ => rfl)
        (fun n hn => ⟨hn, h.canonical_of_get? hget⟩) fun n _ w path => ?_
      have hread : readKeyword (E.surroundings s.members) "const" v
          = if !(E.dialect.draft != .draft4) then .ok .any else .ok (.assert (.const v)) := rfl
      by_cases hdraft : E.dialect.draft = .draft4
      · rw [says_of_any hget (by rw [hread, hdraft]; rfl)]
        simp [Check.Passes, hdraft]
      · rw [says_assert (a := .const v) hget (by rw [hread]; simp [hdraft])]
        simp [Check.Passes, hdraft]

/-! ## Numbers -/

omit h in
/-- What the bound of a keyword comes from. -/
theorem bound_cases {keyword : String} {n : Option Json.Number} (hbound : bound s keyword = .ok n) :
    s.get? keyword = none ∧ n = none ∨ (∃ m, s.get? keyword = some (.num m) ∧ n = some m)
      ∨ ∃ b, s.get? keyword = some (.bool b) ∧ n = none := by
  unfold bound at hbound
  split at hbound
  · next hget => exact Or.inl ⟨hget, (Except.ok.inj hbound).symm⟩
  · next m hget => exact Or.inr (Or.inl ⟨m, hget, (Except.ok.inj hbound).symm⟩)
  · next b hget =>
    split at hbound
    · exact Or.inr (Or.inr ⟨b, hget, (Except.ok.inj hbound).symm⟩)
    · cases hbound
  · cases hbound

omit h in
/-- A check for a value that a keyword may have. -/
theorem row_option {α : Type} {x : Option α} {check : α → Check} {P : Json → String → Prop}
    (hrules : ∀ a, (check a).isRuling = false) (hfits : ∀ a, x = some a → (check a).Fits E.constants)
    (hsome : ∀ a, x = some a → ∀ w path, (check a).Passes E.dialect.draft ruled E.code w path ↔ P w path)
    (hnone : x = none → ∀ w path, P w path) : E.Row ruled (x.toList.map check) false P := by
  cases x with
  | none => exact Row.nil.congr fun w path => iff_of_true trivial (hnone rfl w path)
  | some a => exact hrules a ▸ Row.single (hfits a rfl) (hsome a rfl)

omit h in
theorem lowerLines_eq (exclusive : Bool) (n : Option Json.Number) :
    lowerLines exclusive n = (n.toList.map (Check.limit false exclusive)).flatMap Check.calls := by
  cases n <;> simp [lowerLines, Check.calls]

omit h in
theorem upperLines_eq (exclusive : Bool) (n : Option Json.Number) :
    upperLines exclusive n = (n.toList.map (Check.limit true exclusive)).flatMap Check.calls := by
  cases n <;> simp [upperLines, Check.calls]

/-- A flag in place of an exclusive bound is one of draft 4. -/
theorem draft_of_flag {keyword : String} (hkeyword : keyword ∈ ["exclusiveMinimum", "exclusiveMaximum"]) {b : Bool}
    (hget : s.get? keyword = some (.bool b)) : E.dialect.draft = .draft4 := by
  by_contra hdraft
  obtain ⟨c, hc⟩ := h.exists_read hget
  simp only [List.mem_cons, List.not_mem_nil, or_false] at hkeyword
  have hread : readKeyword (E.surroundings s.members) keyword (.bool b)
      = if !(E.dialect.draft != .draft4) then .ok .any else .error (typeFault (.bool b) .number) := by
    rcases hkeyword with rfl | rfl <;> rfl
  rw [hread, if_neg (by simp [hdraft])] at hc
  cases hc

theorem flag_eq_isExclusive {keyword : String} (hkeyword : keyword ∈ ["exclusiveMinimum", "exclusiveMaximum"]) :
    s.flag keyword = isExclusive (E.surroundings s.members) keyword := by
  have hget : (E.surroundings s.members).get? keyword = s.get? keyword := rfl
  unfold Site.flag isExclusive
  rw [hget]
  split
  · next b hb =>
    rw [hb, show (E.surroundings s.members).dialect.draft = .draft4 from draft_of_flag h hkeyword hb]
    cases b <;> rfl
  · next hnot =>
    symm
    rw [Bool.and_eq_false_iff]
    right
    rw [beq_eq_false_iff_ne]
    exact hnot true

/-- A bound, exclusive where a flag says so. -/
theorem row_bound (ruled upper : Bool) {keyword flag : String} {n : Option Json.Number}
    (hbound : bound s keyword = .ok n) (hflag : flag ∈ ["exclusiveMinimum", "exclusiveMaximum"])
    (make : Json.Number → Bool → Assertion)
    (hmake : ∀ n exclusive, ∀ w path,
      (Check.limit upper exclusive n).Passes E.dialect.draft ruled E.code w path ↔ (make n exclusive).faults w = [])
    (hread : ∀ v, readKeyword (E.surroundings s.members) keyword v
      = SchemaReading.bound v fun n => make n (isExclusive (E.surroundings s.members) flag)) :
    E.Row ruled (n.toList.map (Check.limit upper (s.flag flag))) false (E.Says s.members keyword) := by
  rcases bound_cases hbound with ⟨hget, rfl⟩ | ⟨m, hget, rfl⟩ | ⟨b, hget, rfl⟩
  · exact row_option (fun _ => rfl) (by simp) (by simp) fun _ w path => (says_of_none hget).mpr trivial
  · refine row_option (fun _ => rfl) ?_ ?_ (by simp)
    · rintro _ ⟨⟩
      exact h.number hget
    · rintro _ ⟨⟩ w path
      rw [hmake, says_assert hget (hread _), flag_eq_isExclusive h hflag]
  · obtain ⟨c, hc⟩ := h.exists_read hget
    rw [hread] at hc
    cases hc

theorem row_exclusive (ruled upper : Bool) {keyword : String} {n : Option Json.Number}
    (hbound : bound s keyword = .ok n) (hkeyword : keyword ∈ ["exclusiveMinimum", "exclusiveMaximum"])
    (make : Json.Number → Assertion)
    (hmake : ∀ n, ∀ w path,
      (Check.limit upper true n).Passes E.dialect.draft ruled E.code w path ↔ (make n).faults w = [])
    (hread : ∀ v, readKeyword (E.surroundings s.members) keyword v
      = if !(E.dialect.draft != .draft4) then .ok .any else SchemaReading.bound v make) :
    E.Row ruled (n.toList.map (Check.limit upper true)) false (E.Says s.members keyword) := by
  rcases bound_cases hbound with ⟨hget, rfl⟩ | ⟨m, hget, rfl⟩ | ⟨b, hget, rfl⟩
  · exact row_option (fun _ => rfl) (by simp) (by simp) fun _ w path => (says_of_none hget).mpr trivial
  · have hdraft : E.dialect.draft ≠ .draft4 := fun hdraft => h.bounds hdraft keyword hkeyword m hget
    refine row_option (fun _ => rfl) ?_ ?_ (by simp)
    · rintro _ ⟨⟩
      exact h.number hget
    · rintro _ ⟨⟩ w path
      rw [hmake, says_assert hget (by rw [hread, if_neg (by simp [hdraft])]; rfl)]
  · refine row_option (fun _ => rfl) (by simp) (by simp) fun _ w path => (says_of_any hget ?_).mpr trivial
    rw [hread, draft_of_flag h hkeyword hget]
    rfl

theorem row_multiple (ruled : Bool) {n : Option Json.Number} (hbound : bound s "multipleOf" = .ok n) :
    E.Row ruled (n.toList.map Check.multiple) false (E.Says s.members "multipleOf") := by
  rcases bound_cases hbound with ⟨hget, rfl⟩ | ⟨m, hget, rfl⟩ | ⟨b, hget, rfl⟩
  · exact row_option (fun _ => rfl) (by simp) (by simp) fun _ w path => (says_of_none hget).mpr trivial
  · refine row_option (fun _ => rfl) ?_ ?_ (by simp)
    · rintro _ ⟨⟩
      exact h.number hget
    · rintro _ ⟨⟩ w path
      exact (says_assert (a := .multipleOf m.toBinary64) hget rfl).symm
  · obtain ⟨c, hc⟩ := h.exists_read hget
    cases hc

omit h in
theorem multipleLines_eq {n : Option Json.Number} {calls : List Call} (hlines : multipleLines s n = .ok calls) :
    calls = (n.toList.map Check.multiple).flatMap Check.calls := by
  cases n with
  | none => exact (Except.ok.inj hlines).symm
  | some m =>
      simp only [multipleLines] at hlines
      split at hlines
      · rw [← Except.ok.inj hlines]
        simp [Check.calls]
      · cases hlines

theorem numericPiece_means : (numericPiece s).Means E ruled false fun w path =>
    ∀ keyword ∈ ["minimum", "maximum", "exclusiveMinimum", "exclusiveMaximum", "multipleOf"],
      E.Says s.members keyword w path := by
  refine .wrap .number ?_
  refine means_bind fun min hmin => means_bind fun max hmax => means_bind fun above habove =>
    means_bind fun below hbelow => means_bind fun divisor hdivisor => means_bind fun calls hcalls => ?_
  have hrow := ((((row_bound h ruled false hmin (by simp) .atLeast (fun _ _ _ _ => Iff.rfl) fun _ => rfl).append
      (row_bound h ruled true hmax (by simp) .atMost (fun _ _ _ _ => Iff.rfl) fun _ => rfl)).append
      (row_exclusive h ruled false habove (by simp) (.atLeast · true) (fun _ _ _ => Iff.rfl) fun _ => rfl)).append
      (row_exclusive h ruled true hbelow (by simp) (.atMost · true) (fun _ _ _ => Iff.rfl) fun _ => rfl)).append
      (row_multiple h ruled hdivisor)
  refine means_ofCalls _ ?_ (hrow.congr fun w path => ?_)
  · simp [lowerLines_eq, upperLines_eq, multipleLines_eq hcalls]
  · simp [and_assoc]

/-! ## Counts -/

omit h in
theorem count_cases {keyword : String} {n : Option Nat} (hcount : s.count keyword = .ok n) :
    s.get? keyword = none ∧ n = none
      ∨ ∃ i : Int, s.get? keyword = some (.num (.int i)) ∧ 0 ≤ i ∧ n = some i.toNat := by
  unfold Site.count at hcount
  split at hcount
  · next hget => exact Or.inl ⟨hget, (Except.ok.inj hcount).symm⟩
  · next v hget =>
    split at hcount
    · next n hnat =>
      unfold Json.asNat? at hnat
      split at hnat
      · next i =>
        split at hnat
        · next hi =>
          refine Or.inr ⟨i, hget, hi, ?_⟩
          rw [Option.some.inj hnat, Except.ok.inj hcount]
        · cases hnat
      · cases hnat
    · cases hcount

omit h in
theorem row_count (ruled : Bool) {keyword : String} {n : Option Nat} (hcount : s.count keyword = .ok n)
    (check : Nat → Check) (make : Nat → Assertion) (hrules : ∀ n, (check n).isRuling = false)
    (hfits : ∀ n, (check n).Fits E.constants)
    (hmake : ∀ n w path, (check n).Passes E.dialect.draft ruled E.code w path ↔ (make n).faults w = [])
    (hread : ∀ v, readKeyword (E.surroundings s.members) keyword v = limit v make) :
    E.Row ruled (n.toList.map check) false (E.Says s.members keyword) := by
  rcases count_cases hcount with ⟨hget, rfl⟩ | ⟨i, hget, hi, rfl⟩
  · exact row_option hrules (by simp) (by simp) fun _ w path => (says_of_none hget).mpr trivial
  · refine row_option hrules (fun n _ => hfits n) ?_ (by simp)
    rintro _ ⟨⟩ w path
    rw [hmake, says_assert hget (by rw [hread, limit, if_pos hi])]

omit h in
theorem countLines_eq (of : Counted) (min max : Option Nat) : countLines of.size of.things min max
    = (min.toList.map (Check.count of false) ++ max.toList.map (Check.count of true)).flatMap Check.calls := by
  cases min <;> cases max <;> simp [countLines, Check.calls]

/-! ## Strings -/

theorem patternPiece_means : (patternPiece s).Means E ruled false (E.Says s.members "pattern") := by
  unfold patternPiece
  split
  · next hget => exact means_empty.congr fun _ _ => (says_of_none hget).symm
  · next text hget =>
    refine means_ask (fun c => .pattern c text) (fun _ => rfl) (fun _ => rfl) (fun _ hn => hn)
      fun n _ w path => ?_
    obtain ⟨c, hc⟩ := h.exists_read hget
    replace hc : readPattern (.str text) = .ok c := hc
    simp only [readPattern] at hc
    split at hc
    · next node hnode =>
      rw [says_assert (a := .pattern text node) hget (by
        show readPattern (.str text) = _
        simp only [readPattern, hnode])]
      simp [Check.Passes, hnode]
    · cases hc
  · exact means_ofFault _

theorem stringPiece_means : (stringPiece s).Means E ruled false fun w path =>
    ∀ keyword ∈ ["minLength", "maxLength", "pattern"], E.Says s.members keyword w path := by
  refine .wrap .string ?_
  refine means_bind fun min hmin => means_bind fun max hmax => ?_
  have hmeasure : E.Row ruled [.measure] false fun _ _ => True := .single trivial fun _ _ => Iff.rfl
  have hlengths : E.Row ruled (min.toList.map (Check.length false) ++ max.toList.map (Check.length true)) false
      fun w path => E.Says s.members "minLength" w path ∧ E.Says s.members "maxLength" w path :=
    (row_count ruled hmin (.length false) .minLength (fun _ => rfl) (fun _ => trivial) (fun _ _ _ => Iff.rfl)
      fun _ => rfl).append
    (row_count ruled hmax (.length true) .maxLength (fun _ => rfl) (fun _ => trivial) (fun _ _ _ => Iff.rfl)
      fun _ => rfl)
  have hlines : (ofCalls (lengthLines min max)).Means E ruled false fun w path =>
      E.Says s.members "minLength" w path ∧ E.Says s.members "maxLength" w path := by
    by_cases hnone : (min.isNone && max.isNone) = true
    · refine means_ofCalls _ ?_ hlengths
      simp only [Bool.and_eq_true, Option.isNone_iff_eq_none] at hnone
      obtain ⟨rfl, rfl⟩ := hnone
      rfl
    · refine means_ofCalls _ ?_ ((hmeasure.append hlengths).congr fun w path => by simp)
      unfold lengthLines
      rw [if_neg hnone]
      cases min <;> cases max <;> simp [Check.calls]
  exact (hlines.append (patternPiece_means h)).congr fun w path => by simp [and_assoc]

/-! ## Required properties -/

omit h in
theorem readStrings_iff : ∀ {items : List Json} {names : List String},
    SchemaReading.strings items = .ok names ↔ items = names.map .str
  | [], names => by cases names <;> simp [SchemaReading.strings]
  | item :: rest, names => by
      constructor
      · intro hstrings
        cases item with
        | str t =>
            obtain ⟨more, hmore, rfl⟩ := map_eq_ok hstrings
            rw [readStrings_iff.mp hmore]
            rfl
        | null | bool _ | num _ | arr _ | obj _ => cases hstrings
      · intro hitems
        cases names with
        | nil => cases hitems
        | cons t more =>
            obtain ⟨rfl, hrest⟩ := List.cons.inj hitems
            rw [SchemaReading.strings, readStrings_iff.mpr hrest]
            rfl

omit h in
theorem faults_required_iff {names : List String} {w : Json} : (Assertion.required names).faults w = []
    ↔ ∀ name ∈ names, ∀ members, w = .obj members → Json.Members.contains members name = true := by
  cases w with
  | obj members => simp [Assertion.faults]
  | null | bool _ | num _ | str _ | arr _ => simp [Assertion.faults]

omit h in
theorem requiredPiece_means : (requiredPiece s).Means E ruled false (E.Says s.members "required") := by
  unfold requiredPiece
  split
  · next hget => exact means_empty.congr fun _ _ => (says_of_none hget).symm
  · next items hget =>
    refine means_bind fun names hnames => ?_
    obtain rfl := strings_eq_ok_iff.mp hnames
    have hrow : E.Row ruled (names.map Check.required) false (E.Says s.members "required") := by
      refine ⟨by simp [Check.Fits], by simp [Check.isRuling], fun w path => ?_⟩
      rw [says_assert (a := .required names) hget (by
        show (SchemaReading.strings (names.map .str)).map _ = _
        rw [readStrings_iff.mpr rfl]
        rfl), faults_required_iff, List.forall_mem_map]
      rfl
    exact means_ofCalls _ (by simp [List.flatMap_map, Check.calls]) hrow
  · exact means_ofFault _

omit h in
theorem propertyCountPiece_means : (propertyCountPiece s).Means E ruled false fun w path =>
    E.Says s.members "minProperties" w path ∧ E.Says s.members "maxProperties" w path := by
  refine means_bind fun min hmin => means_bind fun max hmax => ?_
  exact means_ofCalls _ (countLines_eq .properties min max)
    ((row_count ruled hmin (.count .properties false) .minProperties (fun _ => rfl) (fun _ => trivial)
      (fun _ _ _ => Iff.rfl) fun _ => rfl).append
    (row_count ruled hmax (.count .properties true) .maxProperties (fun _ => rfl) (fun _ => trivial)
      (fun _ _ _ => Iff.rfl) fun _ => rfl))

/-! ## Numbers of items, and items that differ -/

omit h in
theorem row_unique (ruled : Bool) : E.Row ruled (if s.flag "uniqueItems" then [Check.unique] else []) false
    (E.Says s.members "uniqueItems") := by
  have hread (v : Json) : readKeyword (E.surroundings s.members) "uniqueItems" v
      = .ok (if v == .bool true then .assert .uniqueItems else .any) := rfl
  unfold Site.flag
  cases hget : s.get? "uniqueItems" with
  | none => exact Row.nil.congr fun _ _ => (says_of_none hget).symm
  | some v =>
      cases v with
      | bool b => cases b with
        | true => exact .single trivial fun w path => (says_assert hget (hread _)).symm
        | false => exact Row.nil.congr fun _ _ => (says_of_any hget (hread _)).symm
      | null | num _ | str _ | arr _ | obj _ => exact Row.nil.congr fun _ _ => (says_of_any hget (hread _)).symm

end DecoderForge.Standalone
