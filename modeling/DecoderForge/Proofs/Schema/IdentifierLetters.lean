import DecoderForge.Proofs.Schema.Identifiers

/-!
# DecoderForge — what an identifier keeps of a text of ASCII

A character of ASCII has one capital and one small form, and only letters and digits make up words there.  The
identifier of such a text is made of its letters and digits in order, changed in case and in nothing else, with
an underscore in front of a leading digit.

## The architecture

* **`Name.IsFormOf`** — a character in one of its two cases.
* **`Naming.forms_caseWord`**, **`Naming.forms_joined`** — one word, acronym or not, and all words joined: a form
  of each character, in order.
* **`Naming.identifier_ascii`** — the identifier of a text of ASCII, or the error where it has neither letter nor
  digit.
-/

namespace DecoderForge

namespace Name

/-! ## Characters of ASCII -/

/-- The letters and digits of a text. -/
def letters (raw : List Char) : List Char := raw.filter Char.isAlphanum

/-- A character in capitals or in small letters. -/
def IsFormOf (d c : Char) : Prop := d = c.toUpper ∨ d = c.toLower

variable {c d : Char}

/-- Among the characters of ASCII, words are made up of letters and digits. -/
theorem isWordPart_ascii (h : c.toNat < 0x80) : isWordPart c = c.isAlphanum :=
  Text.ascii_of_all (q := fun c => isWordPart c = c.isAlphanum) (by decide +kernel) h

/-- Case makes no number and undoes none. -/
theorem IsFormOf.isNumeric (h : IsFormOf d c) (hc : c.toNat < 0x80) : Text.isNumeric d = c.isDigit := by
  have hforms : Text.isNumeric c.toUpper = c.isDigit ∧ Text.isNumeric c.toLower = c.isDigit :=
    Text.ascii_of_all
      (q := fun c => Text.isNumeric c.toUpper = c.isDigit ∧ Text.isNumeric c.toLower = c.isDigit)
      (by decide +kernel) hc
  rcases h with rfl | rfl
  · exact hforms.1
  · exact hforms.2

/-- The words of a text of ASCII are its letters and digits. -/
theorem flatten_textWords_ascii {raw : List Char} (h : ∀ c ∈ raw, c.toNat < 0x80) :
    (textWords raw).flatten = letters raw := by
  rw [flatten_textWords]
  exact List.filter_congr fun c hc => isWordPart_ascii (h c hc)

/-! ## Rows of forms -/

/-- The single capital form. -/
theorem toUpper_ascii (hc : c.toNat < 0x80) : ∃ d, Text.toUpper c = [d] ∧ IsFormOf d c :=
  ⟨c.toUpper, if_pos hc, .inl rfl⟩

/-- The single small form. -/
theorem toLower_ascii (hc : c.toNat < 0x80) : ∃ d, Text.toLower c = [d] ∧ IsFormOf d c :=
  ⟨c.toLower, if_pos hc, .inr rfl⟩

/-- Characters with single forms, one after another. -/
theorem forms_of_single {f : Char → List Char} : ∀ {word : List Char},
    (∀ c ∈ word, ∃ d, f c = [d] ∧ IsFormOf d c) → List.Forall₂ IsFormOf (word.flatMap f) word
  | [], _ => .nil
  | c :: rest, h => by
      obtain ⟨⟨d, hd, hform⟩, hrest⟩ := List.forall_mem_cons.mp h
      rw [List.flatMap_cons, hd]
      exact .cons hform (forms_of_single hrest)

end Name

namespace Naming

/-! ## Words -/

/-- **Casing a word of ASCII changes nothing but case**, whether the word is an acronym or not. -/
theorem forms_caseWord (n : Naming) {word : List Char} (h : ∀ c ∈ word, c.toNat < 0x80) :
    List.Forall₂ Name.IsFormOf (n.caseWord word) word := by
  unfold caseWord
  simp only
  split
  · exact Name.forms_of_single fun c hc => Name.toUpper_ascii (h c hc)
  · cases word with
    | nil => exact .nil
    | cons c rest =>
        obtain ⟨hc, hrest⟩ := List.forall_mem_cons.mp h
        obtain ⟨d, hd, hform⟩ := Name.toUpper_ascii hc
        show List.Forall₂ Name.IsFormOf (Text.toUpper c ++ rest.flatMap Text.toLower) (c :: rest)
        rw [hd]
        exact .cons hform (Name.forms_of_single fun b hb => Name.toLower_ascii (hrest b hb))

/-- Cased words stand in the order of the words. -/
theorem forms_flatMap (n : Naming) : ∀ {words : List (List Char)}, (∀ word ∈ words, ∀ c ∈ word, c.toNat < 0x80) →
    List.Forall₂ Name.IsFormOf (words.flatMap n.caseWord) words.flatten
  | [], _ => .nil
  | word :: more, h => by
      obtain ⟨hword, hmore⟩ := List.forall_mem_cons.mp h
      rw [List.flatMap_cons, List.flatten_cons]
      exact List.rel_append (forms_caseWord n hword) (forms_flatMap n hmore)

/-- **The words joined are the letters and digits of the text**, each in one of its two cases. -/
theorem forms_joined (n : Naming) {raw : List Char} (h : ∀ c ∈ raw, c.toNat < 0x80) :
    List.Forall₂ Name.IsFormOf (n.joined raw) (Name.letters raw) := by
  have hwords : ∀ word ∈ Name.textWords raw, ∀ c ∈ word, c.toNat < 0x80 := fun word hword c hc =>
    h c (Name.of_mem_textWords hword hc).1
  rw [← Name.flatten_textWords_ascii h]
  exact forms_flatMap n hwords

/-! ## Identifiers -/

/-- The identifier is what is joined, but for an underscore in front of a number. -/
theorem identifier_eq (n : Naming) (raw : String) :
    n.identifier raw = match n.joined raw.toList with
      | [] => .error (.invalidName raw)
      | c :: rest => .ok (String.ofList (if Text.isNumeric c then '_' :: c :: rest else c :: rest)) := by
  unfold identifier identifierChars?
  simp only [flatMap_runs]
  cases n.joined raw.toList <;> rfl

/-- **The identifier of a text of ASCII.**  There is none exactly if the text has neither letter nor digit.  Else it
is the letters and digits in order, none lost, repeated or swapped, each in capitals or in small letters; an
underscore goes before them exactly if the first is a digit. -/
theorem identifier_ascii (n : Naming) {raw : String} (h : ∀ c ∈ raw.toList, c.toNat < 0x80) :
    (n.identifier raw = .error (.invalidName raw) ↔ ∀ c ∈ raw.toList, c.isAlphanum = false)
      ∧ ((∃ c ∈ raw.toList, c.isAlphanum = true) →
        ∃ kept, List.Forall₂ Name.IsFormOf kept (Name.letters raw.toList)
          ∧ n.identifier raw = .ok (String.ofList
              (if (Name.letters raw.toList).head?.any Char.isDigit then '_' :: kept else kept))) := by
  have hforms := forms_joined n h
  have hnone : Name.letters raw.toList = [] ↔ ∀ c ∈ raw.toList, c.isAlphanum = false := by
    simp [Name.letters, List.filter_eq_nil_iff]
  have hsome : (∃ c ∈ raw.toList, c.isAlphanum = true) → Name.letters raw.toList ≠ [] := by
    rintro ⟨c, hc, halphanum⟩ hempty
    have hno := hnone.mp hempty c hc
    rw [halphanum] at hno
    exact absurd hno (by decide)
  rw [← hnone, identifier_eq]
  cases hletters : Name.letters raw.toList with
  | nil =>
      rw [hletters, List.forall₂_nil_right_iff] at hforms
      rw [hforms]
      exact ⟨by simp, fun hex => absurd hletters (hsome hex)⟩
  | cons c rest =>
      rw [hletters] at hforms
      -- the first form tells whether the first character is a digit
      obtain ⟨d, more, hform, hmore, hjoined⟩ := List.forall₂_cons_right_iff.mp hforms
      have hmem : c ∈ Name.letters raw.toList := by
        rw [hletters]
        exact List.mem_cons_self
      have hdigit : Text.isNumeric d = c.isDigit := hform.isNumeric (h c (List.mem_filter.mp hmem).1)
      rw [hjoined]
      refine ⟨by simp, fun _ => ⟨d :: more, .cons hform hmore, ?_⟩⟩
      show Except.ok (String.ofList (if Text.isNumeric d = true then '_' :: d :: more else d :: more)) = _
      rw [hdigit]
      rfl

/-- A leading digit, an apostrophe within a word, an acronym and capitals that end a word; and a text of signs. -/
theorem identifier_ascii_mixed :
    (∃ kept, List.Forall₂ Name.IsFormOf kept (Name.letters "3D don't user_id XMLHttp".toList)
        ∧ ({ acronyms := ["id"] } : Naming).identifier "3D don't user_id XMLHttp"
            = .ok (String.ofList ('_' :: kept)))
      ∧ ({ acronyms := ["id"] } : Naming).identifier "3D don't user_id XMLHttp" = .ok "_3DDontUserIDXmlHttp"
      ∧ ({ acronyms := ["id"] } : Naming).identifier "-- '" = .error (.invalidName "-- '") := by
  -- each text is gone through by itself, not all characters there are
  have hmixed : ∀ c ∈ "3D don't user_id XMLHttp".toList, c.toNat < 0x80 := by simp
  have hletter : ∃ c ∈ "3D don't user_id XMLHttp".toList, c.isAlphanum = true := ⟨'3', by decide, rfl⟩
  have hsigns : ∀ c ∈ "-- '".toList, c.toNat < 0x80 := by simp
  have hnone : ∀ c ∈ "-- '".toList, c.isAlphanum = false := by simp
  exact ⟨(identifier_ascii { acronyms := ["id"] } hmixed).2 hletter, by decide +kernel,
    (identifier_ascii { acronyms := ["id"] } hsigns).1.mpr hnone⟩

end Naming

end DecoderForge
