import DecoderForge.Proofs.Layout.Literals
import DecoderForge.Proofs.Schema.Names
import DecoderForge.Proofs.Text.Case

/-!
# DecoderForge — the characters of identifiers

Whatever its source, an identifier has only letters, numbers and an underscore, of any script, and does not
begin with a small letter of ASCII.  None of its characters means anything to a reader of code, and neither
does any capital or small form of them.

## The architecture

* **`Name.flatten_textWords`** — the words of a text are its letters and numbers.
* **`Naming.of_mem_joined`**, **`Naming.subset_joined`** — an identifier is made of their forms, one for each.
* **`Name.Kept`** — a class of characters that naming does not leave.
* **`Definitions.kept_of_enumerate`** — the run: the identifiers of a schema are in every such class.
* **`Definitions.head_of_enumerate`** — and none of them begins with a small letter of ASCII.
-/

namespace DecoderForge

open Layout (isPlain)

/-! ## Letter case -/

namespace Text

theorem plain_ofNat : ∀ n, 0x80 ≤ n → isPlain (Char.ofNat n) = true :=
  holds_ofNat (fun _ h => Layout.plain_of (p := fun c => decide (0x80 ≤ c.toNat)) (by decide) (by simpa using h))
    rfl

/-- **The capital form of a plain character is plain.** -/
theorem plain_toUpper {c : Char} (h : isPlain c = true) : ∀ d ∈ toUpper c, isPlain d = true :=
  holds_mapped plain_ofNat (by decide) (by decide) fun hlow =>
    ascii_of_all (q := fun c => isPlain c = true → isPlain c.toUpper = true) (by decide) hlow h

/-- **The small form of a plain character is plain.** -/
theorem plain_toLower {c : Char} (h : isPlain c = true) : ∀ d ∈ toLower c, isPlain d = true :=
  holds_mapped plain_ofNat (by decide) (by decide) fun hlow =>
    ascii_of_all (q := fun c => isPlain c = true → isPlain c.toLower = true) (by decide) hlow h

/-- The characters but the dollar sign. -/
def isNoDollar (c : Char) : Bool := c != '$'

/-- What is in a class without the dollar sign is not the dollar sign. -/
theorem noDollar_of {p : Char → Bool} (hp : p '$' = false) {c : Char} (h : p c = true) : isNoDollar c = true := by
  have hne : c ≠ '$' := by
    rintro rfl
    rw [hp] at h
    exact absurd h Bool.false_ne_true
  simpa [isNoDollar] using hne

theorem noDollar_ofNat : ∀ n, 0x80 ≤ n → isNoDollar (Char.ofNat n) = true :=
  holds_ofNat (fun _ h => noDollar_of (p := fun c => decide (0x80 ≤ c.toNat)) (by decide) (by simpa using h)) rfl

theorem noDollar_toUpper {c : Char} (h : isNoDollar c = true) : ∀ d ∈ toUpper c, isNoDollar d = true :=
  holds_mapped noDollar_ofNat (by decide) (by decide) fun hlow =>
    ascii_of_all (q := fun c => isNoDollar c = true → isNoDollar c.toUpper = true) (by decide) hlow h

theorem noDollar_toLower {c : Char} (h : isNoDollar c = true) : ∀ d ∈ toLower c, isNoDollar d = true :=
  holds_mapped noDollar_ofNat (by decide) (by decide) fun hlow =>
    ascii_of_all (q := fun c => isNoDollar c = true → isNoDollar c.toLower = true) (by decide) hlow h

/-- The characters but the small letters of ASCII. -/
def isNoSmallLetter (c : Char) : Bool := !c.isLower

theorem noSmallLetter_ofNat : ∀ n, 0x80 ≤ n → isNoSmallLetter (Char.ofNat n) = true := by
  refine holds_ofNat (fun c h => ?_) rfl
  have hbeyond : ¬ c.isLower = true := by
    intro hlower
    have hboth : (decide (c.val ≥ 'a'.val) && decide (c.val ≤ 'z'.val)) = true := hlower
    have hbound : c.val.toNat ≤ 122 := of_decide_eq_true (Bool.and_eq_true_iff.mp hboth).2
    have hsame : c.toNat = c.val.toNat := rfl
    omega
  simpa [isNoSmallLetter] using hbeyond

/-- **No capital form is a small letter of ASCII**, whatever the character. -/
theorem noSmallLetter_toUpper (c : Char) : ∀ d ∈ toUpper c, isNoSmallLetter d = true :=
  holds_mapped noSmallLetter_ofNat (by decide) (by decide) fun hlow =>
    ascii_of_all (q := fun c => isNoSmallLetter c.toUpper = true) (by decide) hlow

end Text

/-! ## Words -/

namespace Name

/-- **The rows of a class are its characters in order**, none lost. -/
theorem flatten_runs (p : Char → Bool) : ∀ cs : List Char, (runs p cs).flatten = cs.filter p
  | [] => rfl
  | [c] => by
      by_cases hc : p c = true
      · simp [runs, hc]
      · simp [runs, hc]
  | c :: d :: rest => by
      have ih := flatten_runs p (d :: rest)
      by_cases hc : p c = true
      · by_cases hd : p d = true
        · rw [runs, List.filter_cons_of_pos hc, ← ih]
          simp only [hc, hd, Bool.not_true, Bool.false_eq_true, if_false]
          cases runs p (d :: rest) with
          | nil => rfl
          | cons r more => rfl
        · rw [runs, List.filter_cons_of_pos hc, ← ih]
          simp only [hc, hd, Bool.not_true, Bool.false_eq_true, if_false, Bool.not_false, if_true]
          rfl
      · rw [runs, List.filter_cons_of_neg hc, ← ih]
        simp only [hc, Bool.not_false, if_true]

/-- **The words of a row are its characters in order**, none lost. -/
theorem flatten_words : ∀ cs : List Char, (words cs).flatten = cs
  | [] => rfl
  | [c] => rfl
  | c :: d :: rest => by
      have ih := flatten_words (d :: rest)
      rw [words]
      split
      · rw [List.flatten_cons, ih]
        rfl
      · cases hwords : words (d :: rest) with
        | nil =>
            rw [hwords] at ih
            exact absurd ih (by simp)
        | cons w more =>
            rw [hwords] at ih
            exact congrArg (c :: ·) ih

/-- The words of a text. -/
def textWords (raw : List Char) : List (List Char) :=
  (runs isWordPart (raw.filter fun c => !isApostrophe c)).flatMap words

/-- **The words of a text are its letters and numbers in order**: no apostrophe is one of these. -/
theorem flatten_textWords (raw : List Char) : (textWords raw).flatten = raw.filter isWordPart := by
  have hrows : ∀ rows : List (List Char), (rows.flatMap words).flatten = rows.flatten := by
    intro rows
    induction rows with
    | nil => rfl
    | cons row more ih => rw [List.flatMap_cons, List.flatten_append, flatten_words, ih, List.flatten_cons]
  have hnoApostrophe : ∀ c, isWordPart c = true → isApostrophe c = false := by
    intro c hc
    by_contra hapostrophe
    rw [Bool.not_eq_false, isApostrophe, Bool.or_eq_true, beq_iff_eq, beq_iff_eq] at hapostrophe
    rcases hapostrophe with rfl | rfl
    · exact absurd hc (by decide)
    · exact absurd hc (by decide +kernel)
  rw [textWords, hrows, flatten_runs, List.filter_filter]
  refine List.filter_congr fun c _ => ?_
  by_cases hc : isWordPart c = true
  · simp [hc, hnoApostrophe c hc]
  · simp [hc]

/-- The characters of words are letters and numbers of the text. -/
theorem of_mem_textWords {raw word : List Char} (hword : word ∈ textWords raw) {c : Char} (hc : c ∈ word) :
    c ∈ raw ∧ isWordPart c = true := by
  have hmem : c ∈ (textWords raw).flatten := List.mem_flatten.mpr ⟨word, hword, hc⟩
  rw [flatten_textWords] at hmem
  exact List.mem_filter.mp hmem

/-- A letter or number of a text stands in a word. -/
theorem exists_textWord {raw : List Char} {c : Char} (hc : c ∈ raw) (hpart : isWordPart c = true) :
    ∃ word ∈ textWords raw, c ∈ word := by
  have hmem : c ∈ (textWords raw).flatten := by
    rw [flatten_textWords]
    exact List.mem_filter.mpr ⟨hc, hpart⟩
  exact List.mem_flatten.mp hmem

/-! ## Classes of characters -/

/-- A class of characters that naming does not leave. -/
structure Kept (p : Char → Bool) : Prop where
  wordPart : ∀ c, isWordPart c = true → p c = true
  underscore : p '_' = true
  digit : ∀ c, c.isDigit = true → p c = true
  upper : ∀ c, p c = true → ∀ d ∈ Text.toUpper c, p d = true
  lower : ∀ c, p c = true → ∀ d ∈ Text.toLower c, p d = true

theorem kept_isPlain : Kept isPlain where
  wordPart _ := Layout.plain_of (by decide)
  underscore := rfl
  digit _ := Layout.plain_of_isDigit
  upper _ := Text.plain_toUpper
  lower _ := Text.plain_toLower

theorem kept_isNoDollar : Kept Text.isNoDollar where
  wordPart _ := Text.noDollar_of (by decide)
  underscore := rfl
  digit _ := Text.noDollar_of (by decide)
  upper _ := Text.noDollar_toUpper
  lower _ := Text.noDollar_toLower

/-! ## First characters -/

theorem toUpper_ne_nil (c : Char) : Text.toUpper c ≠ [] := by
  unfold Text.toUpper
  split
  · simp
  · split
    · next codes hlookup =>
      -- every row of the table has an image
      have hrows : ∀ e ∈ Text.upperMany, e.2 ≠ [] := by decide
      obtain ⟨l₁, l₂, heq, -⟩ := List.lookup_eq_some_iff.mp hlookup
      have hrow : codes ≠ [] := hrows (c.toNat, codes) (by simp [heq])
      simpa using hrow
    · simp

theorem head_flatMap {α : Type} {P : Char → Prop} {f : α → List Char} :
    ∀ {l : List α}, (∀ a ∈ l, ∀ d ∈ (f a).head?, P d) → ∀ d ∈ (l.flatMap f).head?, P d
  | [], _ => by simp
  | a :: rest, h => by
      obtain ⟨hfirst, hrest⟩ := List.forall_mem_cons.mp h
      rw [List.flatMap_cons]
      cases hf : f a with
      | nil => exact head_flatMap hrest
      | cons c more =>
          rw [hf] at hfirst
          exact hfirst

end Name

/-! ## Identifiers -/

namespace Naming

/-- The words of a text joined: its identifier, but for an underscore in front of a number. -/
def joined (n : Naming) (raw : List Char) : List Char := (Name.textWords raw).flatMap n.caseWord

/-- The words of each run joined are the words of the text joined. -/
theorem flatMap_runs (n : Naming) (raw : List Char) :
    (Name.runs Name.isWordPart (raw.filter fun c => !Name.isApostrophe c)).flatMap
      (fun run => (Name.words run).flatMap n.caseWord) = n.joined raw := by
  rw [joined, Name.textWords, List.flatMap_assoc]

theorem identifierChars?_eq_some {n : Naming} {raw cs : List Char} (h : n.identifierChars? raw = some cs) :
    ∃ c rest, n.joined raw = c :: rest ∧ cs = if Text.isNumeric c then '_' :: c :: rest else c :: rest := by
  unfold identifierChars? at h
  simp only [flatMap_runs] at h
  split at h
  · exact absurd h (by simp)
  · rename_i c rest hchars
    exact ⟨c, rest, hchars, (Option.some.inj h).symm⟩

section

variable {n : Naming} {raw : List Char}

/-- The characters of a cased word are of forms of its characters. -/
theorem of_mem_caseWord {word : List Char} {d : Char} (h : d ∈ n.caseWord word) :
    ∃ c ∈ word, d ∈ Text.toUpper c ∨ d ∈ Text.toLower c := by
  unfold caseWord at h
  simp only at h
  split at h
  · obtain ⟨c, hc, hd⟩ := List.mem_flatMap.mp h
    exact ⟨c, hc, .inl hd⟩
  · cases word with
    | nil => exact absurd h List.not_mem_nil
    | cons c rest =>
        rcases List.mem_append.mp h with hd | hd
        · exact ⟨c, List.mem_cons_self, .inl hd⟩
        · obtain ⟨e, he, hd⟩ := List.mem_flatMap.mp hd
          exact ⟨e, List.mem_cons_of_mem c he, .inr hd⟩

/-- Each character of a word has a form in the cased word. -/
theorem subset_caseWord {word : List Char} {c : Char} (hc : c ∈ word) :
    Text.toUpper c ⊆ n.caseWord word ∨ Text.toLower c ⊆ n.caseWord word := by
  unfold caseWord
  simp only
  split
  · exact .inl fun d hd => List.mem_flatMap.mpr ⟨c, hc, hd⟩
  · cases word with
    | nil => exact absurd hc List.not_mem_nil
    | cons b rest =>
        rcases List.mem_cons.mp hc with rfl | hc
        · exact .inl (List.subset_append_left _ _)
        · exact .inr fun d hd => List.mem_append_right _ (List.mem_flatMap.mpr ⟨c, hc, hd⟩)

/-- A cased word begins with a capital form. -/
theorem head_caseWord (word : List Char) :
    ∀ d ∈ (n.caseWord word).head?, ∃ c ∈ word, d ∈ (Text.toUpper c).head? := by
  cases word with
  | nil =>
      have hempty : n.caseWord [] = [] := by
        unfold caseWord
        simp only
        split <;> rfl
      simp [hempty]
  | cons c rest =>
      have hfirst : ∀ more, ∀ d ∈ (Text.toUpper c ++ more).head?,
          ∃ b ∈ c :: rest, d ∈ (Text.toUpper b).head? := by
        intro more d hd
        rw [List.head?_append_of_ne_nil _ (Name.toUpper_ne_nil c)] at hd
        exact ⟨c, List.mem_cons_self, hd⟩
      unfold caseWord
      simp only
      split
      · exact hfirst (Text.upperCased rest)
      · exact hfirst (rest.flatMap Text.toLower)

/-- **What is joined are forms of letters and numbers of the text.** -/
theorem of_mem_joined {d : Char} (h : d ∈ n.joined raw) :
    ∃ c ∈ raw, Name.isWordPart c = true ∧ (d ∈ Text.toUpper c ∨ d ∈ Text.toLower c) := by
  obtain ⟨word, hword, hd⟩ := List.mem_flatMap.mp h
  obtain ⟨c, hc, hform⟩ := of_mem_caseWord hd
  obtain ⟨hraw, hpart⟩ := Name.of_mem_textWords hword hc
  exact ⟨c, hraw, hpart, hform⟩

/-- **Every letter and number of a text has a form in what is joined.** -/
theorem subset_joined {c : Char} (hc : c ∈ raw) (hpart : Name.isWordPart c = true) :
    Text.toUpper c ⊆ n.joined raw ∨ Text.toLower c ⊆ n.joined raw := by
  obtain ⟨word, hword, hc⟩ := Name.exists_textWord hc hpart
  have hsubset : n.caseWord word ⊆ n.joined raw := fun d hd => List.mem_flatMap.mpr ⟨word, hword, hd⟩
  exact (subset_caseWord hc).imp (List.Subset.trans · hsubset) (List.Subset.trans · hsubset)

/-- **What is joined begins with the capital form** of a letter or a number. -/
theorem head_joined :
    ∀ d ∈ (n.joined raw).head?, ∃ c ∈ raw, Name.isWordPart c = true ∧ d ∈ (Text.toUpper c).head? :=
  Name.head_flatMap fun word hword d hd => by
    obtain ⟨c, hc, hform⟩ := head_caseWord word d hd
    obtain ⟨hraw, hpart⟩ := Name.of_mem_textWords hword hc
    exact ⟨c, hraw, hpart, hform⟩

end

section

variable {p : Char → Bool}

/-- **An identifier is in every class that naming does not leave**, whatever the text from which it is
made. -/
theorem kept_of_identifierChars? (k : Name.Kept p) {n : Naming} {raw cs : List Char}
    (h : n.identifierChars? raw = some cs) : ∀ c ∈ cs, p c = true := by
  obtain ⟨c, rest, hchars, rfl⟩ := identifierChars?_eq_some h
  have hjoined : ∀ d ∈ c :: rest, p d = true := by
    intro d hd
    rw [← hchars] at hd
    obtain ⟨b, -, hpart, hform⟩ := of_mem_joined hd
    exact hform.elim (k.upper b (k.wordPart b hpart) d) (k.lower b (k.wordPart b hpart) d)
  split
  · exact List.forall_mem_cons.mpr ⟨k.underscore, hjoined⟩
  · exact hjoined

theorem kept_of_derive (k : Name.Kept p) {n : Naming} {key : String} {schema : Json} {name : String}
    (h : n.derive key schema = .ok name) : ∀ c ∈ name.toList, p c = true := by
  unfold derive identifier at h
  split at h
  · rename_i cs hcs
    obtain rfl := Except.ok.inj h
    rw [String.toList_ofList]
    exact kept_of_identifierChars? k hcs
  · exact absurd h (by simp)

end

/-- The name of the registry class for a folder is plain. -/
theorem plain_registryClass (n : Naming) (folder : String) :
    ∀ c ∈ (n.registryClass folder).toList, isPlain c = true := by
  have hsuffix : ∀ c ∈ registrySuffix.toList, isPlain c = true := by decide
  unfold registryClass
  split
  · rename_i cs hcs
    rw [String.toList_append, String.toList_ofList]
    intro c hc
    rcases List.mem_append.mp hc with hc | hc
    · exact kept_of_identifierChars? Name.kept_isPlain hcs c hc
    · exact hsuffix c hc
  · exact hsuffix

/-- **No identifier begins with a small letter of ASCII**: it begins with a capital form, or an underscore
stands in front. -/
theorem head_of_identifierChars? {n : Naming} {raw cs : List Char} (h : n.identifierChars? raw = some cs) :
    ∃ c rest, cs = c :: rest ∧ Text.isNoSmallLetter c = true := by
  obtain ⟨c, rest, hchars, rfl⟩ := identifierChars?_eq_some h
  split
  · exact ⟨'_', c :: rest, rfl, rfl⟩
  · have hhead : c ∈ (n.joined raw).head? := by
      rw [hchars]
      rfl
    obtain ⟨b, -, -, hform⟩ := head_joined c hhead
    exact ⟨c, rest, rfl, Text.noSmallLetter_toUpper b c (List.mem_of_mem_head? hform)⟩

theorem head_of_derive {n : Naming} {key : String} {schema : Json} {name : String}
    (h : n.derive key schema = .ok name) : ∃ c rest, name.toList = c :: rest ∧ Text.isNoSmallLetter c = true := by
  unfold derive identifier at h
  split at h
  · rename_i cs hcs
    obtain rfl := Except.ok.inj h
    rw [String.toList_ofList]
    exact head_of_identifierChars? hcs
  · exact absurd h (by simp)

end Naming

/-! ## Claims -/

namespace NameTable

/-- What a claim gives out is the identifier asked for, or that with a number behind it. -/
theorem eq_or_numbered_of_claim {t t' : NameTable} {key name assigned : String}
    (h : t.claim key name = .ok (assigned, t')) : assigned = name ∨ ∃ n, assigned = numbered name n := by
  unfold claim at h
  split at h
  · exact Or.inl (Prod.mk.inj (Except.ok.inj h)).1.symm
  · split at h
    · exact absurd h (by simp)
    · exact Or.inr ⟨_, (Prod.mk.inj (Except.ok.inj h)).1.symm⟩

/-- A claimed identifier is in a class that naming does not leave if the one asked for is. -/
theorem kept_of_claim {p : Char → Bool} (k : Name.Kept p) {t t' : NameTable} {key name assigned : String}
    (hname : ∀ c ∈ name.toList, p c = true) (h : t.claim key name = .ok (assigned, t')) :
    ∀ c ∈ assigned.toList, p c = true := by
  rcases eq_or_numbered_of_claim h with rfl | ⟨n, rfl⟩
  · exact hname
  · unfold numbered
    rw [String.toList_append]
    intro c hc
    rcases List.mem_append.mp hc with hc | hc
    · exact hname c hc
    · rw [Nat.toString_eq_ofList_toDigits, String.toList_ofList] at hc
      exact k.digit c (Nat.isDigit_of_mem_toDigits (by decide) (by decide) hc)

theorem head_of_claim {t t' : NameTable} {key name assigned : String} {p : Char → Bool}
    (hname : ∃ c rest, name.toList = c :: rest ∧ p c = true) (h : t.claim key name = .ok (assigned, t')) :
    ∃ c rest, assigned.toList = c :: rest ∧ p c = true := by
  rcases eq_or_numbered_of_claim h with rfl | ⟨n, rfl⟩
  · exact hname
  · obtain ⟨c, rest, hchars, hc⟩ := hname
    refine ⟨c, rest ++ (toString n).toList, ?_, hc⟩
    unfold numbered
    rw [String.toList_append, hchars]
    rfl

end NameTable

namespace Definitions

/-- What holds of every identifier that a definition derives, and of every one claimed instead, holds of all
identifiers given out from some table on. -/
theorem forall_of_enumerateFrom {naming : Naming} {P : String → Prop}
    (hderive : ∀ {key schema name}, naming.derive key schema = .ok name → P name)
    (hclaim : ∀ {t t' : NameTable} {key name assigned},
      P name → t.claim key name = .ok (assigned, t') → P assigned) :
    ∀ {entries : Json.Members} {table : NameTable} {ds : List Definition},
      enumerateFrom naming table entries = .ok ds → ∀ d ∈ ds, P d.name
  | [], _, ds, h => by
      obtain rfl := Except.ok.inj h
      simp
  | (key, schema) :: rest, table, ds, h => by
      obtain ⟨_, name, more, hderived, hclaimed, hmore, rfl⟩ := enumerateFrom_cons_eq_ok h
      exact List.forall_mem_cons.mpr
        ⟨hclaim (hderive hderived) hclaimed, forall_of_enumerateFrom hderive hclaim hmore⟩

variable {definitions : Definitions} {naming : Naming} {policy : CollisionPolicy} {ds : List Definition}

/-- **The identifiers of a schema are in every class that naming does not leave.** -/
theorem kept_of_enumerate {p : Char → Bool} (k : Name.Kept p)
    (h : definitions.enumerate naming policy = .ok ds) : ∀ d ∈ ds, ∀ c ∈ d.name.toList, p c = true :=
  forall_of_enumerateFrom (P := fun name => ∀ c ∈ name.toList, p c = true) (Naming.kept_of_derive k)
    (NameTable.kept_of_claim k) h

/-- **Every definition of a schema has a plain name.** -/
theorem plain_of_enumerate (h : definitions.enumerate naming policy = .ok ds) :
    ∀ d ∈ ds, ∀ c ∈ d.name.toList, isPlain c = true := kept_of_enumerate Name.kept_isPlain h

/-- **No identifier of a schema begins with a small letter of ASCII.** -/
theorem head_of_enumerate (h : definitions.enumerate naming policy = .ok ds) :
    ∀ d ∈ ds, ∃ c rest, d.name.toList = c :: rest ∧ Text.isNoSmallLetter c = true :=
  forall_of_enumerateFrom (P := fun name => ∃ c rest, name.toList = c :: rest ∧ Text.isNoSmallLetter c = true)
    Naming.head_of_derive NameTable.head_of_claim h

end Definitions

end DecoderForge
