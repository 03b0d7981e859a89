import DecoderForge.Json.Printer
import DecoderForge.Proofs.Layout.Brackets
import DecoderForge.Style

/-!
# DecoderForge — literals in code

User text reaches a module inside string literals and inside JSON.  Both escape what would end them, so
that no text of a user is read as code.

## The architecture

* **`quiet_quoteChars`**, **`quiet_quote`** — a string literal is quiet, whatever its text.
* **`plain_toText`** — a number consists of plain characters.
* **`closed_compact`**, **`closed_pretty`** — the brackets of a JSON text match.
-/

namespace DecoderForge.Layout

/-! ## Inside quotes -/

/-- Characters that stand for themselves inside quotes. -/
def isInner (double : Bool) (c : Char) : Bool := c != '\n' && c != '\\' && c != quoteOf double

/-- A character that stands for itself. -/
theorem step_inner {double : Bool} {c : Char} (h : isInner double c = true) :
    (LexState.quoted double).step c = some (.quoted double, []) := by
  simp only [isInner, Bool.and_eq_true, bne_iff_ne] at h
  obtain ⟨⟨hnewline, hback⟩, hquote⟩ := h
  simp [LexState.step, hnewline, hback, hquote]

/-- Characters that stand for themselves. -/
theorem lexes_inner {double : Bool} : ∀ {text : List Char}, (∀ c ∈ text, isInner double c = true) →
    Lexes (.quoted double) text (.quoted double) []
  | [], _ => Lexes.nil _
  | c :: _, h =>
      Lexes.cons (step_inner (h c List.mem_cons_self))
        (lexes_inner fun d hd => h d (List.mem_cons_of_mem c hd))

/-- An escape: a backslash, any character of the line, and characters that stand for themselves. -/
theorem lexes_escape {double : Bool} {a : Char} {text : List Char} (ha : a ≠ '\n')
    (h : ∀ c ∈ text, isInner double c = true) :
    Lexes (.quoted double) ('\\' :: a :: text) (.quoted double) [] := by
  have hback : (LexState.quoted double).step '\\' = some (.escaped double, []) := rfl
  have hnext : (LexState.escaped double).step a = some (.quoted double, []) := by
    simp [LexState.step, ha]
  exact Lexes.cons hback (Lexes.cons hnext (lexes_inner h))

/-- Hexadecimal digits stand for themselves. -/
theorem inner_hexDigit (double : Bool) : ∀ n < 16, isInner double (Json.Token.hexDigit n) = true := by
  cases double <;> decide

/-- The escape of a control character. -/
theorem lexes_control (double : Bool) {n : Nat} (h : n < 0x20) :
    Lexes (.quoted double)
      ['\\', 'u', '0', '0', Json.Token.hexDigit (n / 16), Json.Token.hexDigit (n % 16)]
      (.quoted double) [] := by
  have hzero : isInner double '0' = true := by cases double <;> rfl
  refine lexes_escape (by decide) fun c hc => ?_
  simp only [List.mem_cons, List.not_mem_nil, or_false] at hc
  rcases hc with rfl | rfl | rfl | rfl
  · exact hzero
  · exact hzero
  · exact inner_hexDigit double _ (by omega)
  · exact inner_hexDigit double _ (by omega)

/-! ## String literals -/

/-- **A character of a string literal** is an escape, or stands for itself. -/
theorem escapeChar_cases (double : Bool) (c : Char) :
    (∃ a text, Style.escapeChar (quoteOf double) c = '\\' :: a :: text ∧ a ≠ '\n'
        ∧ ∀ d ∈ text, isInner double d = true)
      ∨ Style.escapeChar (quoteOf double) c = [c] ∧ isInner double c = true := by
  have hletters : ∀ d ∈ ['0', '2', '8', '9'], isInner double d = true := by
    cases double <;> decide
  have hempty : ∀ d ∈ ([] : List Char), isInner double d = true := nofun
  unfold Style.escapeChar
  by_cases hback : c = '\\'
  · simp only [hback, beq_self_eq_true, if_true]
    exact .inl ⟨_, _, rfl, by decide, hempty⟩
  by_cases hnewline : c = '\n'
  · simp only [hnewline]
    exact .inl ⟨_, _, rfl, by decide, hempty⟩
  by_cases hreturn : c = '\r'
  · simp only [hreturn]
    exact .inl ⟨_, _, rfl, by decide, hempty⟩
  by_cases htab : c = '\t'
  · simp only [htab]
    exact .inl ⟨_, _, rfl, by decide, hempty⟩
  by_cases hline : c = '\u2028'
  · simp only [hline]
    exact .inl ⟨_, _, rfl, by decide, fun d hd => hletters d (by simp at hd ⊢; tauto)⟩
  by_cases hparagraph : c = '\u2029'
  · simp only [hparagraph]
    exact .inl ⟨_, _, rfl, by decide, fun d hd => hletters d (by simp at hd ⊢; tauto)⟩
  simp only [beq_iff_eq, hback, hnewline, hreturn, htab, hline, hparagraph, if_false]
  by_cases hquote : c = quoteOf double
  · simp only [hquote, if_true]
    exact .inl ⟨_, _, rfl, by cases double <;> decide, hempty⟩
  · simp only [hquote, if_false]
    by_cases hlow : c.toNat < 0x20
    · rw [if_pos hlow]
      refine .inl ⟨_, _, rfl, by decide, fun d hd => ?_⟩
      simp only [List.mem_cons, List.not_mem_nil, or_false] at hd
      rcases hd with rfl | rfl | rfl | rfl
      · exact hletters '0' (by decide)
      · exact hletters '0' (by decide)
      · exact inner_hexDigit double _ (by omega)
      · exact inner_hexDigit double _ (by omega)
    · rw [if_neg hlow]
      exact .inr ⟨rfl, by simp [isInner, hnewline, hback, hquote]⟩

theorem lexes_escapeChar (double : Bool) (c : Char) :
    Lexes (.quoted double) (Style.escapeChar (quoteOf double) c) (.quoted double) [] := by
  rcases escapeChar_cases double c with ⟨a, text, heq, ha, htext⟩ | ⟨heq, hinner⟩
  · rw [heq]
    exact lexes_escape ha htext
  · rw [heq]
    exact lexes_inner (by simpa using hinner)

/-- A quote, text inside it, and the quote again. -/
theorem quiet_between {double : Bool} {text : List Char}
    (h : Lexes (.quoted double) text (.quoted double) []) :
    Quiet (quoteOf double :: text ++ [quoteOf double]) := by
  have hopen : LexState.code.step (quoteOf double) = some (.quoted double, []) := by
    cases double <;> rfl
  have hclose : (LexState.quoted double).step (quoteOf double) = some (.code, []) := by
    cases double <;> rfl
  exact Lexes.cons hopen (h.append (Lexes.cons hclose (Lexes.nil _)))

/-- Characters escaped one by one. -/
theorem lexes_flatMap {st : LexState} {f : Char → List Char} (h : ∀ c, Lexes st (f c) st []) :
    ∀ text : List Char, Lexes st (text.flatMap f) st []
  | [] => Lexes.nil st
  | c :: text => by
      rw [List.flatMap_cons]
      exact (h c).append (lexes_flatMap h text)

/-- The quote of a style is one of the two. -/
theorem quoteMark_eq (style : Style) : style.quoteMark = quoteOf (!style.singleQuote) := by
  unfold Style.quoteMark quoteOf
  cases style.singleQuote <;> rfl

/-- **A string literal is quiet, whatever its text.** -/
theorem quiet_quoteChars (style : Style) (text : List Char) : Quiet (style.quoteChars text) := by
  unfold Style.quoteChars
  rw [quoteMark_eq]
  exact quiet_between (lexes_flatMap (lexes_escapeChar _) text)

theorem quiet_styleQuote (style : Style) (s : String) : Quiet (style.quote s).toList := by
  rw [Style.quote, String.toList_ofList]
  exact quiet_quoteChars style s.toList

/-- A character of a JSON string. -/
theorem lexes_tokenEscapeChar (c : Char) :
    Lexes (.quoted true) (Json.Token.escapeChar c) (.quoted true) [] := by
  have hempty : ∀ c ∈ ([] : List Char), isInner true c = true := by simp
  unfold Json.Token.escapeChar
  by_cases hquote : c = '"'
  · simp only [hquote]
    exact lexes_escape (by decide) hempty
  by_cases hback : c = '\\'
  · simp only [hback]
    exact lexes_escape (by decide) hempty
  by_cases hbackspace : c = '\x08'
  · simp only [hbackspace]
    exact lexes_escape (by decide) hempty
  by_cases hfeed : c = '\x0c'
  · simp only [hfeed]
    exact lexes_escape (by decide) hempty
  by_cases hnewline : c = '\n'
  · simp only [hnewline]
    exact lexes_escape (by decide) hempty
  by_cases hreturn : c = '\r'
  · simp only [hreturn]
    exact lexes_escape (by decide) hempty
  by_cases htab : c = '\t'
  · simp only [htab]
    exact lexes_escape (by decide) hempty
  simp only [beq_iff_eq, hquote, hback, hbackspace, hfeed, hnewline, hreturn, htab, if_false]
  by_cases hlow : c.toNat < 0x20
  · rw [if_pos hlow]
    exact lexes_control true hlow
  · rw [if_neg hlow]
    exact lexes_inner (by simp [isInner, quoteOf, hnewline, hback, hquote])

/-- **A JSON string is quiet, whatever its text.** -/
theorem quiet_quote (s : String) : Quiet (Json.Token.quote s).toList := by
  unfold Json.Token.quote
  simp only [String.toList_append, String.toList_ofList]
  exact quiet_between (lexes_flatMap lexes_tokenEscapeChar s.toList)

/-! ## Numbers -/

/-- Digits are plain. -/
theorem plain_of_isDigit {c : Char} (h : c.isDigit = true) : isPlain c = true := plain_of (by decide) h

/-- The characters of which numbers consist. -/
def isNumeral (c : Char) : Bool := c.isDigit || ['.', '-', '+', 'e'].contains c

theorem numeral_of_isDigit {c : Char} (h : c.isDigit = true) : isNumeral c = true := by
  unfold isNumeral
  rw [h, Bool.true_or]

theorem numeral_digitChars {n : Nat} : ∀ c ∈ Decimal.digitChars n, isNumeral c = true := fun _ hc =>
  numeral_of_isDigit (Nat.isDigit_of_mem_toDigits (by decide) (by decide) hc)

theorem numeral_natText {n : Nat} : ∀ c ∈ (toString n).toList, isNumeral c = true := by
  rw [Nat.toString_eq_ofList_toDigits, String.toList_ofList]
  exact numeral_digitChars

theorem numeral_intText : ∀ n : Int, ∀ c ∈ (toString n).toList, isNumeral c = true
  | .ofNat n => numeral_natText
  | .negSucc n => by
      intro c hc
      have htext : (toString (Int.negSucc n)).toList = '-' :: (toString (n + 1)).toList := by
        show ("-" ++ toString (n + 1)).toList = _
        rw [String.toList_append]
        rfl
      rw [htext] at hc
      rcases List.mem_cons.mp hc with rfl | hc
      · rfl
      · exact numeral_natText c hc

theorem numeral_plain (d : Decimal) {tail : String} (htail : ∀ c ∈ tail.toList, isNumeral c = true) :
    ∀ c ∈ (d.plain tail).toList, isNumeral c = true := by
  have hzeros : ∀ n, ∀ c ∈ List.replicate n '0', isNumeral c = true := by
    intro n c hc
    obtain rfl := List.eq_of_mem_replicate hc
    rfl
  have hpoint : isNumeral '.' = true := rfl
  intro c
  unfold Decimal.plain
  simp only
  split
  · simp only [String.toList_append, String.toList_ofList, List.mem_append]
    rintro ((hc | hc) | hc)
    · exact numeral_digitChars c hc
    · exact hzeros _ c hc
    · exact htail c hc
  split
  · simp only [String.toList_append, String.toList_ofList, List.mem_append]
    rintro ((hc | hc) | hc)
    · exact numeral_digitChars c (List.mem_of_mem_take hc)
    · obtain rfl : c = '.' := by simpa using hc
      exact hpoint
    · exact numeral_digitChars c (List.mem_of_mem_drop hc)
  · simp only [String.toList_append, String.toList_ofList, List.mem_append]
    rintro (hc | hc | hc)
    · obtain rfl | rfl : c = '0' ∨ c = '.' := by simpa using hc
      · rfl
      · exact hpoint
    · exact hzeros _ c hc
    · exact numeral_digitChars c hc

theorem numeral_scientific (d : Decimal) : ∀ c ∈ d.scientific.toList, isNumeral c = true := by
  have hmark : ∀ e : Int, ∀ c ∈ (if e < 0 then "e-" else "e+").toList, isNumeral c = true := by
    intro e
    split <;> decide
  have hdigits := numeral_digitChars (n := d.digits)
  intro c
  unfold Decimal.scientific
  simp only [String.toList_append, List.mem_append]
  rintro ((hc | hc) | hc)
  · split at hc
    · exact absurd hc (by simp)
    · rename_i a ha
      rw [ha] at hdigits
      exact hdigits c (by simpa using hc)
    · rename_i a rest _ ha
      rw [ha] at hdigits
      simp only [String.toList_append, String.toList_ofList, List.mem_append] at hc
      rcases hc with (hc | hc) | hc
      · exact hdigits c (List.mem_cons.mpr (Or.inl (by simpa using hc)))
      · obtain rfl : c = '.' := by simpa using hc
        rfl
      · exact hdigits c (List.mem_cons_of_mem a hc)
  · exact hmark _ c hc
  · exact numeral_natText c hc

theorem numeral_toText : ∀ n : Json.Number, ∀ c ∈ n.toText.toList, isNumeral c = true
  | .int n => numeral_intText n
  | .float x => by
      have hsign : ∀ c ∈ (if x.negative then "-" else "").toList, isNumeral c = true := by
        split <;> decide
      intro c hc
      replace hc : c ∈ x.toText.toList := hc
      unfold Binary64.toText at hc
      simp only at hc
      split at hc
      · rw [String.toList_append, List.mem_append] at hc
        rcases hc with hc | hc
        · exact hsign c hc
        · exact (by decide : ∀ c ∈ "0.0".toList, isNumeral c = true) c hc
      · rw [String.toList_append, List.mem_append] at hc
        rcases hc with hc | hc
        · exact hsign c hc
        split at hc
        · exact numeral_plain _ (by decide) c hc
        · exact numeral_scientific _ c hc

/-- **A number consists of plain characters.** -/
theorem plain_toText (n : Json.Number) : ∀ c ∈ n.toText.toList, isPlain c = true :=
  fun c hc => plain_of (by decide) (numeral_toText n c hc)

/-! ## JSON -/

/-- Strings joined are their texts joined. -/
theorem toList_intercalate (sep : String) : ∀ texts : List String,
    (String.intercalate sep texts).toList = Text.joinWith sep.toList (texts.map String.toList)
  | [] => rfl
  | [t] => by rw [String.intercalate_singleton]; rfl
  | t :: u :: rest => by
      rw [String.intercalate_cons_cons, String.toList_append, String.toList_append,
        toList_intercalate sep (u :: rest)]
      rfl

theorem Closed.intercalate {sep : String} (hsep : Closed sep.toList) {texts : List String}
    (h : ∀ t ∈ texts, Closed t.toList) : Closed (String.intercalate sep texts).toList := by
  rw [toList_intercalate]
  refine Closed.joinWith hsep fun t ht => ?_
  obtain ⟨u, hu, rfl⟩ := List.mem_map.mp ht
  exact h u hu

/-- A constant text without brackets. -/
theorem closed_of_plain {text : List Char} (h : ∀ c ∈ text, isPlain c = true) : Closed text :=
  (quiet_of_plain h).closed

mutual

/-- **The brackets of a JSON text match.** -/
theorem closed_compact : ∀ j : Json, Closed j.compact.toList
  | .null => closed_of_plain (by decide)
  | .bool true => closed_of_plain (by decide)
  | .bool false => closed_of_plain (by decide)
  | .num n => closed_of_plain (plain_toText n)
  | .str s => (quiet_quote s).closed
  | .arr items => by
      rw [Json.compact, String.toList_append, String.toList_append]
      exact (Closed.intercalate (closed_of_plain (by decide)) (closed_compactItems items)).square
  | .obj members => by
      rw [Json.compact, String.toList_append, String.toList_append]
      exact (Closed.intercalate (closed_of_plain (by decide)) (closed_compactMembers members)).braces

theorem closed_compactItems : ∀ items : List Json,
    ∀ t ∈ Json.compactItems items, Closed t.toList
  | [] => fun t ht => absurd ht (by simp [Json.compactItems])
  | v :: rest => by
      rw [Json.compactItems]
      exact List.forall_mem_cons.mpr ⟨closed_compact v, closed_compactItems rest⟩

theorem closed_compactMembers : ∀ members : List (String × Json),
    ∀ t ∈ Json.compactMembers members, Closed t.toList
  | [] => fun t ht => absurd ht (by simp [Json.compactMembers])
  | (k, v) :: rest => by
      rw [Json.compactMembers]
      refine List.forall_mem_cons.mpr ⟨?_, closed_compactMembers rest⟩
      rw [String.toList_append, String.toList_append]
      exact ((quiet_quote k).closed.append (closed_of_plain (by decide))).append (closed_compact v)

end

/-- Indentation is quiet. -/
theorem closed_prettyIndent (depth : Nat) : Closed (Json.prettyIndent depth).toList := by
  rw [Json.prettyIndent, String.toList_ofList]
  refine closed_of_plain fun c hc => ?_
  obtain rfl := List.eq_of_mem_replicate hc
  rfl

mutual

/-- **The brackets of a JSON text over several lines match.** -/
theorem closed_prettyAt (depth : Nat) : ∀ j : Json, Closed (j.prettyAt depth).toList
  | .null => closed_compact .null
  | .bool true => closed_compact (.bool true)
  | .bool false => closed_compact (.bool false)
  | .num n => closed_of_plain (plain_toText n)
  | .str s => (quiet_quote s).closed
  | .arr [] => by
      have htext : "[]".toList = '[' :: [] ++ [']'] := by decide
      rw [Json.prettyAt, htext]
      exact Quiet.nil.closed.square
  | .obj [] => by
      have htext : "\x7b\x7d".toList = '{' :: [] ++ ['}'] := by decide
      rw [Json.prettyAt, htext]
      exact Quiet.nil.closed.braces
  | .arr (v :: rest) => by
      have hnewline : Closed "\n".toList := closed_of_plain (by decide)
      have hitems := Closed.intercalate (closed_of_plain (by decide : ∀ c ∈ ",\n".toList, isPlain c = true))
        (closed_prettyItems (depth + 1) (v :: rest))
      have htext := ((hnewline.append hitems).append hnewline).append (closed_prettyIndent depth)
      rw [Json.prettyAt]
      simpa [String.toList_append] using htext.square
  | .obj (m :: rest) => by
      have hnewline : Closed "\n".toList := closed_of_plain (by decide)
      have hmembers := Closed.intercalate (closed_of_plain (by decide : ∀ c ∈ ",\n".toList, isPlain c = true))
        (closed_prettyMembers (depth + 1) (m :: rest))
      have htext := ((hnewline.append hmembers).append hnewline).append (closed_prettyIndent depth)
      rw [Json.prettyAt]
      simpa [String.toList_append] using htext.braces

theorem closed_prettyItems (depth : Nat) : ∀ items : List Json,
    ∀ t ∈ Json.prettyItems depth items, Closed t.toList
  | [] => fun t ht => absurd ht (by simp [Json.prettyItems])
  | v :: rest => by
      rw [Json.prettyItems]
      refine List.forall_mem_cons.mpr ⟨?_, closed_prettyItems depth rest⟩
      rw [String.toList_append]
      exact (closed_prettyIndent depth).append (closed_prettyAt depth v)

theorem closed_prettyMembers (depth : Nat) : ∀ members : List (String × Json),
    ∀ t ∈ Json.prettyMembers depth members, Closed t.toList
  | [] => fun t ht => absurd ht (by simp [Json.prettyMembers])
  | (k, v) :: rest => by
      rw [Json.prettyMembers]
      refine List.forall_mem_cons.mpr ⟨?_, closed_prettyMembers depth rest⟩
      simp only [String.toList_append]
      exact (((closed_prettyIndent depth).append (quiet_quote k).closed).append
        (closed_of_plain (by decide))).append (closed_prettyAt depth v)

end

theorem closed_pretty (j : Json) : Closed j.pretty.toList := closed_prettyAt 0 j

end DecoderForge.Layout
