import DecoderForge.Text.Blank
import Mathlib.Data.List.SplitBy

/-!
# DecoderForge — the words of code

What a program says stands outside of its string literals.  There a text falls into tokens: words, which are as
long as they can be, and single signs.  Texts one after another have the tokens of both, as long as no word runs
from one into the next.

## The architecture

* **`Quoting.code`** — the characters outside of string literals in double quotes.
* **`tokens`** — the tokens of such characters; **`tokens_append`** puts them together.
* **`declared`** — the words behind a keyword.
-/

namespace DecoderForge.Layout

/-! ## Outside of string literals -/

/-- Where a character stands. -/
inductive Quoting where
  | outside
  | inside
  /-- Inside, behind a backslash. -/
  | escaped
deriving DecidableEq, Repr

namespace Quoting

/-- Where the next character stands. -/
def next : Quoting → Char → Quoting
  | .outside, c => if c == '"' then .inside else .outside
  | .inside, c => if c == '\\' then .escaped else if c == '"' then .outside else .inside
  | .escaped, _ => .inside

/-- Where a text ends. -/
def after (q : Quoting) (text : List Char) : Quoting := text.foldl next q

/-- The characters of a text outside of string literals; a literal leaves its first quote. -/
def code : Quoting → List Char → List Char
  | _, [] => []
  | .outside, c :: text => c :: code (next .outside c) text
  | .inside, c :: text => code (next .inside c) text
  | .escaped, _ :: text => code .inside text

theorem after_append (q : Quoting) (a b : List Char) : q.after (a ++ b) = (q.after a).after b :=
  List.foldl_append

theorem code_append : ∀ (q : Quoting) (a b : List Char), q.code (a ++ b) = q.code a ++ (q.after a).code b
  | _, [], _ => by simp [code, after]
  | .outside, c :: a, b => congrArg (c :: ·) (code_append (next .outside c) a b)
  | .inside, c :: a, b => code_append (next .inside c) a b
  | .escaped, _ :: a, b => code_append .inside a b

/-- Text without quotes is code, and ends outside. -/
theorem outside_of_noQuote : ∀ {text : List Char}, '"' ∉ text →
    outside.after text = .outside ∧ outside.code text = text
  | [], _ => ⟨rfl, rfl⟩
  | c :: text, h => by
      obtain ⟨hc, htext⟩ := not_or.mp (List.mem_cons.not.mp h)
      obtain ⟨hafter, hcode⟩ := outside_of_noQuote htext
      have hnext : next .outside c = .outside := if_neg (by simpa using Ne.symm hc)
      refine ⟨?_, ?_⟩
      · show (next .outside c).after text = .outside
        rw [hnext, hafter]
      · rw [code, hnext, hcode]

/-- Text inside a literal, where every escape is complete. -/
def Inside (text : List Char) : Prop := inside.after text = .inside ∧ inside.code text = []

theorem Inside.append {a b : List Char} (ha : Inside a) (hb : Inside b) : Inside (a ++ b) := by
  refine ⟨?_, ?_⟩
  · rw [after_append, ha.1, hb.1]
  · rw [code_append, ha.1, ha.2, hb.2]
    rfl

/-- A text between quotes leaves one of them. -/
theorem outside_of_inside {text : List Char} (h : Inside text) :
    outside.after ('"' :: text ++ ['"']) = .outside ∧ outside.code ('"' :: text ++ ['"']) = ['"'] := by
  refine ⟨?_, ?_⟩
  · show inside.after (text ++ ['"']) = .outside
    rw [after_append, h.1]
    rfl
  · show '"' :: inside.code (text ++ ['"']) = ['"']
    rw [code_append, h.1, h.2]
    rfl

end Quoting

/-! ## Tokens -/

/-- The characters of words. -/
def isWordChar (c : Char) : Bool := c.isAlphanum || c == '_' || c == '$'

/-- The tokens of code: words and single signs. -/
def tokens (code : List Char) : List (List Char) :=
  (code.splitBy fun a b => isWordChar a && isWordChar b).filter fun t => !t.all Text.isBlank

/-- No word runs from one text into the next. -/
def Apart (a b : List Char) : Prop :=
  ∀ x ∈ a.getLast?, ∀ y ∈ b.head?, (isWordChar x && isWordChar y) = false

theorem apart_of_last {a b : List Char} (h : ∀ x ∈ a.getLast?, isWordChar x = false) : Apart a b := fun x hx y _ => by
  rw [h x hx, Bool.false_and]

theorem apart_of_head {a b : List Char} (h : ∀ y ∈ b.head?, isWordChar y = false) : Apart a b := fun x _ y hy => by
  rw [h y hy, Bool.and_false]

theorem tokens_append {a b : List Char} (h : Apart a b) : tokens (a ++ b) = tokens a ++ tokens b := by
  unfold tokens
  rw [List.splitBy_append h, List.filter_append]

/-- A word is one token. -/
theorem tokens_word {w : List Char} (hne : w ≠ []) (h : ∀ c ∈ w, isWordChar c = true)
    (hblank : w.all Text.isBlank = false) : tokens w = [w] := by
  unfold tokens
  rw [List.splitBy_of_isChain hne]
  · simp [hblank]
  · refine (List.pairwise_of_forall_mem_list fun a ha b hb => ?_).isChain
    simp [h a ha, h b hb]

/-- The characters of tokens are those of the code. -/
theorem mem_of_mem_tokens {code t : List Char} (h : t ∈ tokens code) {c : Char} (hc : c ∈ t) : c ∈ code := by
  have ht := List.mem_of_mem_filter h
  rw [← List.flatten_splitBy (fun a b => isWordChar a && isWordChar b) code]
  exact List.mem_flatten.mpr ⟨t, ht, hc⟩

/-- The tokens of a text outside of string literals. -/
def codeTokens (text : List Char) : List (List Char) := tokens (Quoting.outside.code text)

theorem codeTokens_append {a b : List Char} (ha : Quoting.outside.after a = .outside)
    (h : Apart (Quoting.outside.code a) (Quoting.outside.code b)) :
    codeTokens (a ++ b) = codeTokens a ++ codeTokens b := by
  rw [codeTokens, Quoting.code_append, ha, tokens_append h]
  rfl

/-- Letters and digits stand between `0` and `z`. -/
theorem between_of_isAlphanum {c : Char} (h : c.isAlphanum = true) : 48 ≤ c.toNat ∧ c.toNat ≤ 122 := by
  rcases Bool.or_eq_true_iff.mp h with hletter | hdigit
  · rcases Bool.or_eq_true_iff.mp hletter with hupper | hlower
    · obtain ⟨hlow, hhigh⟩ : 65 ≤ c.toNat ∧ c.toNat ≤ 90 := of_decide_eq_true hupper
      omega
    · obtain ⟨hlow, hhigh⟩ := Bool.and_eq_true_iff.mp hlower
      have hlow : 97 ≤ c.toNat := of_decide_eq_true hlow
      have hhigh : c.toNat ≤ 122 := of_decide_eq_true hhigh
      omega
  · obtain ⟨hlow, hhigh⟩ := Bool.and_eq_true_iff.mp hdigit
    have hlow : 48 ≤ c.toNat := of_decide_eq_true hlow
    have hhigh : c.toNat ≤ 57 := of_decide_eq_true hhigh
    omega

theorem isWordChar_eq_false_of_blank {c : Char} (h : Text.isBlank c = true) : isWordChar c = false := by
  have hne {d : Char} (hd : Text.isBlank d = false) : (c == d) = false := by
    refine beq_eq_false_iff_ne.mpr ?_
    rintro rfl
    exact absurd (h.symm.trans hd) (by decide)
  have hnumber : c.isAlphanum = false := by
    refine Bool.eq_false_iff.mpr fun hnumber => ?_
    obtain ⟨hlow, hhigh⟩ := between_of_isAlphanum hnumber
    simp only [Text.isBlank, Bool.or_eq_true, Bool.and_eq_true, decide_eq_true_eq, beq_iff_eq] at h
    omega
  rw [isWordChar, hnumber, hne rfl, hne rfl]
  rfl

/-- Blanks are no tokens, and keep those around them apart. -/
theorem tokens_blanks {blanks : List Char} (h : ∀ c ∈ blanks, Text.isBlank c = true) : tokens blanks = [] := by
  refine List.filter_eq_nil_iff.mpr fun t ht => ?_
  have hall : t.all Text.isBlank = true := by
    refine List.all_eq_true.mpr fun c hc => h c ?_
    rw [← List.flatten_splitBy (fun a b => isWordChar a && isWordChar b) blanks]
    exact List.mem_flatten.mpr ⟨t, ht, hc⟩
  simp [hall]

theorem codeTokens_blanks_append {blanks text : List Char} (h : ∀ c ∈ blanks, Text.isBlank c = true) :
    codeTokens (blanks ++ text) = codeTokens text := by
  obtain ⟨hafter, hcode⟩ := Quoting.outside_of_noQuote fun hquote => absurd (h _ hquote) (by decide)
  have hlast : ∀ x ∈ (Quoting.outside.code blanks).getLast?, isWordChar x = false := by
    rw [hcode]
    exact fun x hx => isWordChar_eq_false_of_blank (h x (List.mem_of_getLast? hx))
  rw [codeTokens_append hafter (apart_of_last hlast), codeTokens, hcode, tokens_blanks h, List.nil_append]

/-! ## Declarations -/

/-- The words that stand directly behind a keyword. -/
def declared (isKeyword : List Char → Bool) : List (List Char) → List (List Char)
  | a :: b :: rest =>
    if isKeyword a && b.all isWordChar then b :: declared isKeyword (b :: rest) else declared isKeyword (b :: rest)
  | _ => []

/-- Tokens one after another declare what both declare, unless a keyword stands between them. -/
theorem declared_append {isKeyword : List Char → Bool} : ∀ {xs ys : List (List Char)},
    (∀ t ∈ xs.getLast?, isKeyword t = false) →
      declared isKeyword (xs ++ ys) = declared isKeyword xs ++ declared isKeyword ys
  | [], _, _ => rfl
  | [a], [], _ => rfl
  | [a], b :: rest, h => by
      have ha : isKeyword a = false := h a rfl
      show (if (isKeyword a && b.all isWordChar) = true then _ else _) = _
      rw [ha]
      rfl
  | a :: b :: xs, ys, h => by
      have ih : declared isKeyword ((b :: xs) ++ ys) = declared isKeyword (b :: xs) ++ declared isKeyword ys :=
        declared_append (by simpa using h)
      simp only [List.cons_append, declared] at ih ⊢
      split_ifs
      · rw [ih, List.cons_append]
      · exact ih

/-- What is declared is a token. -/
theorem mem_of_mem_declared {isKeyword : List Char → Bool} : ∀ {toks : List (List Char)} {t : List Char},
    t ∈ declared isKeyword toks → t ∈ toks
  | a :: b :: rest, t, h => by
      rw [declared] at h
      split_ifs at h
      · rcases List.mem_cons.mp h with rfl | h
        · exact List.mem_cons_of_mem _ List.mem_cons_self
        · exact List.mem_cons_of_mem _ (mem_of_mem_declared h)
      · exact List.mem_cons_of_mem _ (mem_of_mem_declared h)

end DecoderForge.Layout
