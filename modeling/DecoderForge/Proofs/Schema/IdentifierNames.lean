import DecoderForge.Proofs.Schema.Identifiers
import DecoderForge.Proofs.Text.IdentifierCharacters

/-!
# DecoderForge — identifiers as names

An identifier stands without quotes wherever its type, its validator and its decoder are named, so it has to be
a name of the language: a dollar sign, an underscore or an ID_Start in front, dollar signs and ID_Continues
behind.  Numbers of category No, such as `²` and `½`, are no ID_Continues, though words are made of them like of
any number.  A text with none of these always makes a name, in whatever capital and small forms; one that has
some never does, for they are their own forms and stay in the identifier.

## The architecture

* **`Name.isIdentifierName`** — what a name of the language is.
* **`Naming.continues_of_mem_joined`**, **`Naming.begins_of_joined`** — the words of a text without such a number.
* **`Naming.mem_joined_of_not_continue`** — and of one with such a number.
* **`Naming.identifier_isName_iff`** — which texts make a name.
-/

namespace DecoderForge

namespace Name

/-! ## Names of the language -/

/-- Whether characters can stand without quotes as a name. -/
def isIdentifierName : List Char → Bool
  | [] => false
  | c :: rest =>
    (c == '$' || c == '_' || Text.isIdStart c) && rest.all fun d => d == '$' || Text.isIdContinue d

/-- A name has only dollar signs and what an identifier may go on with. -/
theorem of_mem_isIdentifierName {cs : List Char} (h : isIdentifierName cs = true) {c : Char} (hc : c ∈ cs) :
    c = '$' ∨ Text.isIdContinue c = true := by
  cases cs with
  | nil => exact absurd hc List.not_mem_nil
  | cons b rest =>
      simp only [isIdentifierName, Bool.and_eq_true, Bool.or_eq_true, beq_iff_eq, List.all_eq_true] at h
      obtain ⟨hfirst, hrest⟩ := h
      rcases List.mem_cons.mp hc with rfl | hc
      · rcases hfirst with (hdollar | rfl) | hstart
        · exact .inl hdollar
        · exact .inr (by decide)
        · exact .inr (Text.isIdContinue_of_isIdStart hstart)
      · exact hrest c hc

/-- What an identifier may go on with makes a name behind a first character. -/
theorem isIdentifierName_cons {c : Char} {rest : List Char}
    (hfirst : c = '_' ∨ Text.isIdStart c = true) (hrest : ∀ d ∈ rest, Text.isIdContinue d = true) :
    isIdentifierName (c :: rest) = true := by
  simp only [isIdentifierName, Bool.and_eq_true, Bool.or_eq_true, beq_iff_eq, List.all_eq_true]
  exact ⟨hfirst.elim (fun hc => .inl (.inr hc)) .inr, fun d hd => .inr (hrest d hd)⟩

end Name

namespace Naming

/-! ## Words joined -/

section

variable {n : Naming} {raw : List Char}

/-- **Words of characters that can go on an identifier are joined to such characters.** -/
theorem continues_of_mem_joined
    (h : ∀ c ∈ raw, Name.isWordPart c = true → Text.isIdContinue c = true) :
    ∀ d ∈ n.joined raw, Text.isIdContinue d = true := by
  intro d hd
  obtain ⟨c, hc, hpart, hupper | hlower⟩ := of_mem_joined hd
  · exact (Text.settled_toUpper hpart).forall_isIdContinue (h c hc hpart) d hupper
  · exact (Text.settled_toLower hpart).forall_isIdContinue (h c hc hpart) d hlower

/-- **They begin an identifier**, unless a number leads. -/
theorem begins_of_joined (h : ∀ c ∈ raw, Name.isWordPart c = true → Text.isIdContinue c = true) :
    ∀ d ∈ (n.joined raw).head?, Text.isIdStart d = true ∨ Text.isNumeric d = true := by
  intro d hd
  obtain ⟨c, hc, hpart, hform⟩ := head_joined d hd
  exact (Text.settled_toUpper hpart).head hpart (h c hc hpart) d hform

/-- **A letter or number that cannot go on an identifier stays in the words joined.** -/
theorem mem_joined_of_not_continue {c : Char} (hc : c ∈ raw) (hpart : Name.isWordPart c = true)
    (hnot : Text.isIdContinue c = false) : c ∈ n.joined raw := by
  rcases subset_joined (n := n) hc hpart with hupper | hlower
  · rw [(Text.settled_toUpper hpart).eq_self hnot] at hupper
    exact hupper List.mem_cons_self
  · rw [(Text.settled_toLower hpart).eq_self hnot] at hlower
    exact hlower List.mem_cons_self

end

/-! ## Identifiers -/

/-- **A text makes a name exactly when all its letters and numbers can go on an identifier**, whatever acronyms
there are. -/
theorem identifier_isName_iff {n : Naming} {raw name : String} (h : n.identifier raw = .ok name) :
    Name.isIdentifierName name.toList = true
      ↔ ∀ c ∈ raw.toList, Name.isWordPart c = true → Text.isIdContinue c = true := by
  unfold identifier at h
  split at h
  case h_2 => exact absurd h (by simp)
  rename_i cs hcs
  obtain rfl := Except.ok.inj h
  rw [String.toList_ofList]
  obtain ⟨first, rest, hchars, rfl⟩ := identifierChars?_eq_some hcs
  constructor
  · -- a character that no identifier may have is its own form, and an underscore in front does not hide it
    intro hname c hc hpart
    by_contra hnot
    rw [Bool.not_eq_true] at hnot
    have hmem := mem_joined_of_not_continue (n := n) hc hpart hnot
    rw [hchars] at hmem
    have hstays : c ∈ if Text.isNumeric first then '_' :: first :: rest else first :: rest := by
      split
      · exact List.mem_cons_of_mem '_' hmem
      · exact hmem
    rcases Name.of_mem_isIdentifierName hname hstays with rfl | hcontinue
    · exact absurd hpart (by decide)
    · rw [hnot] at hcontinue
      exact absurd hcontinue Bool.false_ne_true
  · intro hall
    have hcontinue := continues_of_mem_joined (n := n) hall
    have hbegins := begins_of_joined (n := n) hall
    rw [hchars] at hcontinue hbegins
    split
    · exact Name.isIdentifierName_cons (.inl rfl) hcontinue
    · -- what is no number can begin an identifier
      next hnumeric =>
      have hstart : Text.isIdStart first = true :=
        (hbegins first rfl).resolve_right hnumeric
      exact Name.isIdentifierName_cons (.inr hstart) (List.forall_mem_cons.mp hcontinue).2

/-- Letters whose capitals are several characters, a mark among them, an acronym, and a number of another
script. -/
theorem identifier_isName_ligatures :
    ({ acronyms := ["ǰx"] } : Naming).identifier "ŉo-ǰX ٣" = .ok "ʼNoJ̌X٣"
      ∧ Name.isIdentifierName "ʼNoJ̌X٣".toList = true := by
  have hname : ({ acronyms := ["ǰx"] } : Naming).identifier "ŉo-ǰX ٣" = .ok "ʼNoJ̌X٣" := by decide +kernel
  exact ⟨hname, (identifier_isName_iff hname).mpr (by decide +kernel)⟩

/-- **A square stays in the identifier**, which is no name then. -/
theorem square_stays :
    ({} : Naming).identifier "m²" = .ok "M²" ∧ Name.isIdentifierName "M²".toList = false := by
  decide +kernel

end Naming

end DecoderForge
