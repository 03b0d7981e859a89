import DecoderForge.Proofs.Binary64.ShortestText
import DecoderForge.Proofs.Layout.Literals
import DecoderForge.Proofs.Layout.Relaid

/-!
# DecoderForge — printed JSON is tidy

Over several lines or on one: printed JSON has no line that is empty or ends in a blank.

## The architecture

* **`trimmed_quote`**, **`trimmed_number`** — strings and numbers.
* **`trimmed_compact`** — without blanks a value stands on one line.
* **`tidy_pretty`** — with line ends every line has something at both ends.
-/

namespace DecoderForge.Json

open Text

/-! ## Strings and numbers -/

theorem trimmed_quote (s : String) : Trimmed (Token.quote s).toList := by
  have hsingle := newline_notMem_quote s
  unfold Token.quote at *
  rw [String.toList_append, String.toList_append] at *
  exact .between rfl rfl hsingle

theorem blank_of_numeral {c : Char} (h : Layout.isNumeral c = true) : isBlank c = false := by
  unfold Layout.isNumeral at h
  rw [Bool.or_eq_true, List.contains_iff_mem] at h
  rcases h with hdigit | hmem
  · unfold isBlank
    obtain ⟨hlow, hhigh⟩ := Char.isDigit_iff_toNat.mp hdigit
    have hrange : 48 ≤ c.toNat ∧ c.toNat ≤ 57 := ⟨hlow, hhigh⟩
    simp only [Bool.or_eq_false_iff, Bool.and_eq_false_iff, decide_eq_false_iff_not, beq_eq_false_iff_ne]
    omega
  · simp only [List.mem_cons, List.not_mem_nil, or_false] at hmem
    rcases hmem with rfl | rfl | rfl | rfl <;> rfl

theorem natText_ne_nil (n : Nat) : (toString n).toList ≠ [] := by
  rw [Nat.toString_eq_ofList_toDigits, String.toList_ofList]
  exact Nat.toDigits_ne_nil

theorem trimmed_number (n : Number) : Trimmed n.toText.toList := by
  refine .of_forall ?_ fun c hc => blank_of_numeral (Layout.numeral_toText n c hc)
  cases n with
  | int n =>
      cases n with
      | ofNat n => exact natText_ne_nil n
      | negSucc n =>
          show ("-" ++ toString (n + 1)).toList ≠ []
          simp [String.toList_append]
  | float x =>
      intro hnil
      replace hnil : x.toText.toList = [] := hnil
      rcases x.mark_mem_toText with h | h <;> exact absurd h (by simp [hnil])

/-! ## Values on one line -/

theorem newline_notMem_append {a b : List Char} (ha : '\n' ∉ a) (hb : '\n' ∉ b) : '\n' ∉ a ++ b :=
  fun h => (List.mem_append.mp h).elim ha hb

/-- Texts on one line that are joined on one line. -/
theorem newline_notMem_intercalate {sep : String} (hsep : '\n' ∉ sep.toList) {texts : List String}
    (h : ∀ t ∈ texts, '\n' ∉ t.toList) : '\n' ∉ (String.intercalate sep texts).toList := by
  rw [Layout.toList_intercalate]
  intro hmem
  rcases mem_of_mem_joinWith hmem with hmem | ⟨s, hs, hmem⟩
  · exact hsep hmem
  · obtain ⟨t, ht, rfl⟩ := List.mem_map.mp hs
    exact h t ht hmem

mutual

theorem newline_notMem_compact : ∀ v : Json, '\n' ∉ v.compact.toList
  | .null => by decide
  | .bool true => by decide
  | .bool false => by decide
  | .num n => (trimmed_number n).single
  | .str s => newline_notMem_quote s
  | .arr items => by
      have hitems := newline_notMem_intercalate (by decide : '\n' ∉ ",".toList) (newline_notMem_compactItems items)
      rw [compact, String.toList_append, String.toList_append, List.append_assoc]
      exact newline_notMem_append (by decide) (newline_notMem_append hitems (by decide))
  | .obj members => by
      have hmembers :=
        newline_notMem_intercalate (by decide : '\n' ∉ ",".toList) (newline_notMem_compactMembers members)
      rw [compact, String.toList_append, String.toList_append, List.append_assoc]
      exact newline_notMem_append (by decide) (newline_notMem_append hmembers (by decide))

theorem newline_notMem_compactItems : ∀ items : List Json, ∀ t ∈ compactItems items, '\n' ∉ t.toList
  | [] => by simp [compactItems]
  | v :: rest => by
      rw [compactItems]
      exact List.forall_mem_cons.mpr ⟨newline_notMem_compact v, newline_notMem_compactItems rest⟩

theorem newline_notMem_compactMembers : ∀ members : List (String × Json),
    ∀ t ∈ compactMembers members, '\n' ∉ t.toList
  | [] => by simp [compactMembers]
  | (k, v) :: rest => by
      rw [compactMembers]
      refine List.forall_mem_cons.mpr ⟨?_, newline_notMem_compactMembers rest⟩
      simp [String.toList_append, newline_notMem_quote k, newline_notMem_compact v]

end

/-- **Without blanks a value stands on one line.** -/
theorem trimmed_compact (v : Json) : Trimmed v.compact.toList := by
  have hsingle := newline_notMem_compact v
  cases v with
  | null => exact ⟨rfl, rfl, hsingle⟩
  | bool b => cases b <;> exact ⟨rfl, rfl, hsingle⟩
  | num n => exact trimmed_number n
  | str s => exact trimmed_quote s
  | arr items =>
      rw [compact, String.toList_append, String.toList_append] at hsingle ⊢
      exact .between rfl rfl hsingle
  | obj members =>
      rw [compact, String.toList_append, String.toList_append] at hsingle ⊢
      exact .between rfl rfl hsingle

/-! ## Values over several lines -/

/-- Tidy text behind its indentation. -/
def Indented (text : List Char) : Prop := ∃ front t, text = front ++ t ∧ Indents front ∧ Tidy t

theorem indents_prettyIndent (depth : Nat) : Indents (prettyIndent depth).toList := by
  intro c hc
  rw [prettyIndent, String.toList_ofList] at hc
  exact Or.inl (List.eq_of_mem_replicate hc)

/-- Texts one below the other, each with a comma behind it save the last. -/
theorem indented_intercalate : ∀ {texts : List String}, texts ≠ [] → (∀ t ∈ texts, Indented t.toList) →
    Indented (String.intercalate ",\n" texts).toList
  | [t], _, h => by
      rw [String.intercalate_singleton]
      exact h t List.mem_cons_self
  | t :: u :: rest, _, h => by
      obtain ⟨front, s, hs, hfront, hts⟩ := h t List.mem_cons_self
      obtain ⟨front', s', hs', hfront', hts'⟩ :=
        indented_intercalate (List.cons_ne_nil u rest) fun v hv => h v (List.mem_cons_of_mem t hv)
      have hcomma : Tidy (s ++ [',']) := hts.append (.line ⟨rfl, rfl, by decide⟩)
      refine ⟨front, (s ++ [',']) ++ '\n' :: (front' ++ s'), ?_, hfront, hcomma.append_newline hfront' hts'⟩
      rw [String.intercalate_cons_cons, String.toList_append, String.toList_append, hs, hs']
      simp

/-- Indented lines between brackets that stand on lines of their own. -/
theorem tidy_block {first last : Char} (hfirst : Tidy [first]) (hlast : Tidy [last]) {text : List Char}
    (h : Indented text) (depth : Nat) :
    Tidy (first :: '\n' :: text ++ '\n' :: ((prettyIndent depth).toList ++ [last])) := by
  obtain ⟨front, t, rfl, hfront, ht⟩ := h
  exact (hfirst.append_newline hfront ht).append_newline (indents_prettyIndent depth) hlast

mutual

/-- **With line ends every line has something at both ends.** -/
theorem tidy_prettyAt (depth : Nat) : ∀ v : Json, Tidy (v.prettyAt depth).toList
  | .null => .line (trimmed_compact .null)
  | .bool true => .line (trimmed_compact (.bool true))
  | .bool false => .line (trimmed_compact (.bool false))
  | .num n => .line (trimmed_number n)
  | .str s => .line (trimmed_quote s)
  | .arr [] => .line (trimmed_compact (.arr []))
  | .obj [] => .line (trimmed_compact (.obj []))
  | .arr (v :: rest) => by
      have hitems := indented_intercalate (by simp [prettyItems]) (indented_prettyItems (depth + 1) (v :: rest))
      have hblock := tidy_block (.line ⟨rfl, rfl, by decide⟩ : Tidy ['[']) (.line ⟨rfl, rfl, by decide⟩ : Tidy [']'])
        hitems depth
      rw [prettyAt]
      simpa [String.toList_append] using hblock
  | .obj (m :: rest) => by
      have hmembers := indented_intercalate (by simp [prettyMembers]) (indented_prettyMembers (depth + 1) (m :: rest))
      have hblock := tidy_block (.line ⟨rfl, rfl, by decide⟩ : Tidy ['{']) (.line ⟨rfl, rfl, by decide⟩ : Tidy ['}'])
        hmembers depth
      rw [prettyAt]
      simpa [String.toList_append] using hblock

theorem indented_prettyItems (depth : Nat) : ∀ items : List Json,
    ∀ t ∈ prettyItems depth items, Indented t.toList
  | [] => by simp [prettyItems]
  | v :: rest => by
      rw [prettyItems]
      refine List.forall_mem_cons.mpr ⟨?_, indented_prettyItems depth rest⟩
      exact ⟨_, _, by rw [String.toList_append], indents_prettyIndent depth, tidy_prettyAt depth v⟩

theorem indented_prettyMembers (depth : Nat) : ∀ members : List (String × Json),
    ∀ t ∈ prettyMembers depth members, Indented t.toList
  | [] => by simp [prettyMembers]
  | (k, v) :: rest => by
      rw [prettyMembers]
      refine List.forall_mem_cons.mpr ⟨?_, indented_prettyMembers depth rest⟩
      refine ⟨(prettyIndent depth).toList, (Token.quote k).toList ++ (": ".toList ++ (v.prettyAt depth).toList), ?_,
        indents_prettyIndent depth, .cons_line (trimmed_quote k) (by decide) (tidy_prettyAt depth v)⟩
      simp only [String.toList_append, List.append_assoc]

end

/-- **Printed JSON is tidy.** -/
theorem tidy_pretty (v : Json) : Tidy v.pretty.toList := tidy_prettyAt 0 v

end DecoderForge.Json
