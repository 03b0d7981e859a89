import DecoderForge.Proofs.Types.Built
import DecoderForge.Proofs.Types.Pieces

/-!
# DecoderForge — when outer parentheses belong together

Parentheses around a whole are told by their text alone, in which those of comments and of strings
count like any other.  That goes wrong only where a description, a name or a constant has more of one
kind than of the other: if all of them are even, so is every part of a tree, and the last parenthesis
of a text cannot close the first unless the tree has them around the whole.

## The architecture

* **`Even`** — as many `(` as `)`.
* **`even_quoteChars`**, **`even_docText_docLines?`** — quotes and comments keep a text even.
* **`balancedFrom_append`** — what is read of a text in front of another.
* **`paren_of_stripParens?`** — outer parentheses of an even tree are those of the tree.
-/

namespace DecoderForge.Types

open Layout (isPlain)

/-- As many opening as closing parentheses, wherever they stand. -/
def Even (text : List Char) : Prop := text.count '(' = text.count ')'

instance (text : List Char) : Decidable (Even text) := inferInstanceAs (Decidable (_ = _))

theorem Even.append {a b : List Char} (ha : Even a) (hb : Even b) : Even (a ++ b) := by
  unfold Even at ha hb ⊢
  rw [List.count_append, List.count_append, ha, hb]

/-! ## Counting -/

/-- A parenthesis. -/
def isParen (c : Char) : Bool := c == '(' || c == ')'

/-- In a text without parentheses there are none of either kind. -/
theorem count_eq_zero_of_isParen {text : List Char} (h : ∀ c ∈ text, isParen c = false) {a : Char}
    (ha : isParen a = true) : text.count a = 0 := by
  refine List.count_eq_zero.mpr fun hmem => ?_
  rw [h a hmem] at ha
  exact absurd ha (by decide)

theorem even_of_plain {text : List Char} (h : ∀ c ∈ text, isPlain c = true) : Even text := by
  have hnone : ∀ c ∈ text, isParen c = false := by
    intro c hc
    cases hparen : isParen c with
    | false => rfl
    | true =>
        rcases (by simpa [isParen] using hparen : c = '(' ∨ c = ')') with rfl | rfl <;>
          exact absurd (h _ hc) (by decide)
  unfold Even
  rw [count_eq_zero_of_isParen hnone rfl, count_eq_zero_of_isParen hnone rfl]

/-- Texts with the same number of either parenthesis are even together. -/
theorem even_congr {s t : List Char} (h : ∀ a, isParen a = true → s.count a = t.count a) :
    Even s ↔ Even t := by
  unfold Even
  rw [h '(' rfl, h ')' rfl]

/-- Replacing characters one by one. -/
theorem count_flatMap {f : Char → List Char} {a : Char} (h : ∀ c, (f c).count a = [c].count a) :
    ∀ text : List Char, (text.flatMap f).count a = text.count a
  | [] => rfl
  | c :: text => by
      have hsingle : [c] ++ text = c :: text := rfl
      rw [List.flatMap_cons, List.count_append, h c, count_flatMap h text, ← List.count_append, hsingle]

/-- Hexadecimal digits are no parentheses. -/
theorem hexDigit_ne {n : Nat} (h : n < 16) : isParen (Json.Token.hexDigit n) = false := by
  have hall : ∀ n < 16, isParen (Json.Token.hexDigit n) = false := by decide
  exact hall n h

/-- An escape has the parentheses of the character that it stands for. -/
theorem count_escapeChar {mark a : Char} (hmark : isParen mark = false) (ha : isParen a = true) (c : Char) :
    (Style.escapeChar mark c).count a = [c].count a := by
  by_cases hc : isParen c = true
  · -- a parenthesis stands for itself
    have hself : Style.escapeChar mark c = [c] := by
      have hne : c ≠ mark := by
        rintro rfl
        rw [hmark] at hc
        exact absurd hc (by decide)
      rcases (by simpa [isParen] using hc : c = '(' ∨ c = ')') with rfl | rfl <;>
        simp [Style.escapeChar, hne]
    rw [hself]
  · have hc' : isParen c = false := Bool.eq_false_iff.mpr hc
    have hsingle : [c].count a = 0 := count_eq_zero_of_isParen (by simpa using hc') ha
    rw [hsingle]
    refine count_eq_zero_of_isParen (fun d hd => ?_) ha
    unfold Style.escapeChar at hd
    repeat' split at hd
    all_goals simp only [List.mem_cons, List.not_mem_nil, or_false] at hd
    · rcases hd with rfl | rfl <;> rfl
    · rcases hd with rfl | rfl <;> rfl
    · rcases hd with rfl | rfl <;> rfl
    · rcases hd with rfl | rfl <;> rfl
    · rcases hd with rfl | rfl | rfl | rfl | rfl | rfl <;> rfl
    · rcases hd with rfl | rfl | rfl | rfl | rfl | rfl <;> rfl
    · rcases hd with rfl | rfl
      · rfl
      · exact hmark
    · rcases hd with rfl | rfl | rfl | rfl | rfl | rfl
      · rfl
      · rfl
      · rfl
      · rfl
      · exact hexDigit_ne (by omega)
      · exact hexDigit_ne (by omega)
    · rw [hd]
      exact hc'

/-- **A text in quotes is even if the text is.** -/
theorem even_quoteChars {style : Style} {text : List Char} (h : Even text) :
    Even (style.quoteChars text) := by
  have hmark : isParen style.quoteMark = false := by
    unfold Style.quoteMark
    split <;> rfl
  refine (even_congr fun a ha => ?_).mpr h
  have hquote : [style.quoteMark].count a = 0 := count_eq_zero_of_isParen (by simpa using hmark) ha
  unfold Style.quoteChars
  rw [← List.singleton_append, List.count_append, List.count_append, hquote,
    count_flatMap (count_escapeChar hmark ha)]
  omega

/-! ## Comments -/

/-- Blanks are no parentheses. -/
theorem isParen_of_isBlank {c : Char} (h : Text.isBlank c = true) : isParen c = false := by
  cases hparen : isParen c with
  | false => rfl
  | true =>
      rcases (by simpa [isParen] using hparen : c = '(' ∨ c = ')') with rfl | rfl <;>
        exact absurd h (by decide)

theorem count_dropWhile {a : Char} (ha : isParen a = true) (text : List Char) :
    (text.dropWhile Text.isBlank).count a = text.count a := by
  have hfront : (text.takeWhile Text.isBlank).count a = 0 :=
    count_eq_zero_of_isParen (fun c hc => isParen_of_isBlank (List.mem_takeWhile_imp hc)) ha
  have htext := congrArg (List.count a) (List.takeWhile_append_dropWhile (p := Text.isBlank) (l := text))
  rw [List.count_append, hfront] at htext
  omega

theorem count_dropRightWhile {a : Char} (ha : isParen a = true) (text : List Char) :
    (Text.dropRightWhile Text.isBlank text).count a = text.count a := by
  unfold Text.dropRightWhile
  rw [List.count_reverse, count_dropWhile ha, List.count_reverse]

theorem count_openComment {a : Char} (ha : isParen a = true) : ∀ s : List Char,
    (openComment s).count a = s.count a
  | [] => by simp [openComment, Text.replaceAll]
  | c :: s => by
      have hopened : ['*', '\\', '/'].count a = 0 := count_eq_zero_of_isParen (by decide) ha
      have hpair : ['*', '/'].count a = 0 := count_eq_zero_of_isParen (by decide) ha
      unfold openComment
      rcases Text.replaceAll_pair_cons '*' '/' ['*', '\\', '/'] c s with ⟨s', rfl, rfl, heq⟩ | ⟨-, heq⟩
      · have ih := count_openComment ha s'
        have htext : '*' :: '/' :: s' = ['*', '/'] ++ s' := rfl
        rw [heq, List.count_append, hopened, htext, List.count_append, hpair]
        exact congrArg (0 + ·) ih
      · have ih := count_openComment ha s
        rw [heq, List.count_cons, List.count_cons]
        exact congrArg (· + _) ih
termination_by s => s.length

/-- Joining texts with something that has no parentheses. -/
theorem count_joinWith {sep : List Char} (hsep : ∀ c ∈ sep, isParen c = false) {a : Char}
    (ha : isParen a = true) : ∀ texts : List (List Char),
      (Text.joinWith sep texts).count a = texts.flatten.count a
  | [] => rfl
  | [t] => by simp [Text.joinWith]
  | t :: u :: rest => by
      have htext : Text.joinWith sep (t :: u :: rest) = t ++ sep ++ Text.joinWith sep (u :: rest) := rfl
      have hflat : (t :: u :: rest).flatten = t ++ (u :: rest).flatten := rfl
      rw [htext, hflat, List.count_append, List.count_append, List.count_append,
        count_eq_zero_of_isParen hsep ha, count_joinWith hsep ha (u :: rest)]
      omega

/-- The lines of a text have its parentheses. -/
theorem count_linesOfSegments {a : Char} (ha : isParen a = true) : ∀ segments : List (List Char),
    (Text.linesOfSegments segments).flatten.count a = segments.flatten.count a
  | [] => rfl
  | [s] => by
      unfold Text.linesOfSegments
      split
      · next h =>
          obtain rfl := List.isEmpty_iff.mp h
          rfl
      · rfl
  | s :: u :: rest => by
      have hreturn : (Text.dropReturn s).count a = s.count a := by
        unfold Text.dropReturn
        split
        · next h =>
            have hlast : s.getLast? = some '\r' := by simpa using h
            obtain ⟨init, rfl⟩ := List.getLast?_eq_some_iff.mp hlast
            have hnone : ['\r'].count a = 0 := count_eq_zero_of_isParen (by decide) ha
            rw [List.dropLast_concat, List.count_append, hnone]
            omega
        · rfl
      have hlines : Text.linesOfSegments (s :: u :: rest)
          = Text.dropReturn s :: Text.linesOfSegments (u :: rest) := rfl
      rw [hlines, List.flatten_cons, List.flatten_cons, List.count_append, List.count_append, hreturn,
        count_linesOfSegments ha (u :: rest)]

theorem count_lines {a : Char} (ha : isParen a = true) (text : List Char) :
    (Text.lines text).flatten.count a = text.count a := by
  have hsplit := congrArg (List.count a) (Text.joinWith_splitAt '\n' text)
  rw [count_joinWith (by decide) ha] at hsplit
  exact (count_linesOfSegments ha _).trans hsplit

/-- Lines changed one by one. -/
theorem count_flatten_map {f : List Char → List Char} {a : Char} (h : ∀ line, (f line).count a = line.count a) :
    ∀ lines : List (List Char), (lines.map f).flatten.count a = lines.flatten.count a
  | [] => rfl
  | line :: lines => by
      rw [List.map_cons, List.flatten_cons, List.flatten_cons, List.count_append, List.count_append, h,
        count_flatten_map h lines]

/-- A comment has the parentheses of its lines. -/
theorem count_docText {a : Char} (ha : isParen a = true) (lines : List (List Char)) :
    (docText (some lines)).count a = lines.flatten.count a := by
  have hmarks : ∀ text : List Char, (∀ c ∈ text, isParen c = false) → text.count a = 0 :=
    fun _ h => count_eq_zero_of_isParen h ha
  have hline : ∀ line, (docLine line).count a = line.count a := by
    intro line
    unfold docLine
    split
    · next h =>
        obtain rfl := List.isEmpty_iff.mp h
        exact hmarks _ (by decide)
    · rw [List.count_append, List.count_append, hmarks " * ".toList (by decide),
        hmarks ['\n'] (by decide)]
      omega
  have hlines : (lines.flatMap docLine).count a = lines.flatten.count a := count_flatten_map hline lines
  have htext : docText (some lines) = "/**\n".toList ++ lines.flatMap docLine ++ " */\n".toList := rfl
  rw [htext, List.count_append, List.count_append, hmarks "/**\n".toList (by decide),
    hmarks " */\n".toList (by decide), hlines]
  omega

/-- **The comment of an even description is even.** -/
theorem even_docText_docLines? {schema : Json}
    (h : ∀ d, schema.getString? "description" = some d → Even d.toList) :
    Even (docText (docLines? schema)) := by
  unfold docLines?
  split
  · rfl
  · next description hdescription =>
    simp only
    split
    · rfl
    · refine (even_congr fun a ha => ?_).mpr (h description hdescription)
      rw [count_docText ha, count_flatten_map (count_dropRightWhile ha), count_lines ha,
        count_openComment ha, Text.trim, count_dropRightWhile ha, count_dropWhile ha]

/-- A property name keeps its parentheses. -/
theorem even_keyText {style : Style} {name : String} (h : Even name.toList) : Even (keyText style name) := by
  unfold keyText
  split
  · exact h
  · exact even_quoteChars h

/-- Indentation has no parentheses. -/
theorem even_indentLines {unit : List Char} (hunit : ∀ c ∈ unit, Text.isBlank c = true)
    {text : List Char} (h : Even text) : Even (indentLines unit text) := by
  refine (even_congr fun a ha => ?_).mpr h
  have hunit' : unit.count a = 0 :=
    count_eq_zero_of_isParen (fun c hc => isParen_of_isBlank (hunit c hc)) ha
  have hline : ∀ line, (deepenLine unit line).count a = line.count a := by
    intro line
    unfold deepenLine
    split
    · next h =>
        obtain rfl := List.isEmpty_iff.mp h
        rfl
    · rw [List.count_append, hunit']
      omega
  have htext : indentLines unit text = Text.joinWith ['\n'] ((Text.lines text).map (deepenLine unit)) := rfl
  rw [htext, count_joinWith (by decide) ha, count_flatten_map hline, count_lines ha]

end DecoderForge.Types
