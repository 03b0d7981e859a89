import DecoderForge.Proofs.Layout.Squeezed
import DecoderForge.Proofs.Schema.Reference
import DecoderForge.Types.Schema

/-!
# DecoderForge — pieces of type text

Comments, property names and indentation are where text of a schema enters the text of a type.

## The architecture

* **`hidden_docText_docLines?`** — a description is a comment that does not end before its end.
* **`quiet_keyText`** — a property name is quiet.
* **`lexes_indentLines`**, **`squeezes_indentLines`** — indentation changes neither strings and comments nor brackets,
  and nothing else but blanks.
-/

namespace DecoderForge.Types

open Layout

/-! ## Comments -/

/-- Where an occurrence of `*/` is not the first thing of a text, it is further behind. -/
theorem not_pair_infix_cons {c : Char} {s : List Char} (hhead : c = '*' → s.head? ≠ some '/')
    (h : ¬ ['*', '/'] <:+: s) : ¬ ['*', '/'] <:+: c :: s := by
  intro hinfix
  rcases List.infix_cons_iff.mp hinfix with ⟨t, ht⟩ | hinfix
  · obtain ⟨rfl, rfl⟩ := List.cons.inj ht
    exact hhead rfl rfl
  · exact h hinfix

/-- A text taken apart at `*/` begins as before. -/
theorem head?_openComment (s : List Char) : (openComment s).head? = s.head? := by
  cases s with
  | nil => simp [openComment, Text.replaceAll]
  | cons c s =>
      unfold openComment
      rcases Text.replaceAll_pair_cons '*' '/' ['*', '\\', '/'] c s with ⟨s', rfl, rfl, heq⟩ | ⟨-, heq⟩
      · rw [heq]
        rfl
      · rw [heq]
        rfl

/-- **A text taken apart at `*/` has none of it.** -/
theorem not_pair_infix_openComment : ∀ s : List Char, ¬ ['*', '/'] <:+: openComment s
  | [] => by simp [openComment, Text.replaceAll]
  | c :: s => by
      rcases Text.replaceAll_pair_cons '*' '/' ['*', '\\', '/'] c s with ⟨s', rfl, rfl, heq⟩ | ⟨hpre, heq⟩
      · have ih := not_pair_infix_openComment s'
        have hslash : ¬ ['*', '/'] <:+: '/' :: openComment s' :=
          not_pair_infix_cons (fun h => absurd h (by decide)) ih
        have hback : ¬ ['*', '/'] <:+: '\\' :: '/' :: openComment s' :=
          not_pair_infix_cons (fun h => absurd h (by decide)) hslash
        rw [openComment, heq]
        exact not_pair_infix_cons (fun _ => by simp) hback
      · have ih := not_pair_infix_openComment s
        rw [openComment, heq]
        refine not_pair_infix_cons ?_ ih
        rintro rfl hhead
        rw [← openComment, head?_openComment] at hhead
        cases s with
        | nil => exact absurd hhead (by simp)
        | cons d s =>
            obtain rfl := Option.some.inj hhead
            exact hpre ⟨s, rfl⟩
termination_by s => s.length

/-- Inside a comment, text without `*/` goes on inside the comment. -/
theorem hidden_comment : ∀ {text : List Char} {st : LexState}, st = .block ∨ st = .star →
    (st = .star → text.head? ≠ some '/') → ¬ ['*', '/'] <:+: text →
      ∃ st', (st' = .block ∨ st' = .star) ∧ Hidden st text st'
  | [], st, hst, _, _ => ⟨st, hst, Hidden.nil st⟩
  | c :: text, st, hst, hhead, hpair => by
      have hrest : ¬ ['*', '/'] <:+: text := fun h => hpair (List.infix_cons_iff.mpr (Or.inr h))
      have hnext : ∃ st₁, st.step c = some (st₁, []) ∧ (st₁ = .block ∨ st₁ = .star)
          ∧ (st₁ = .star → c = '*') := by
        have hslash : st = .star → c ≠ '/' := fun hstar h => hhead hstar (by rw [h]; rfl)
        by_cases hc : c = '*'
        · subst hc
          exact ⟨.star, by rcases hst with rfl | rfl <;> rfl, Or.inr rfl, fun _ => rfl⟩
        · refine ⟨.block, ?_, Or.inl rfl, fun h => absurd h (by decide)⟩
          rcases hst with rfl | rfl
          · simp [LexState.step, hc]
          · simp [LexState.step, hc, hslash rfl]
      obtain ⟨st₁, hstep, hst₁, hstar⟩ := hnext
      have hfollows : st₁ = .star → text.head? ≠ some '/' := by
        intro h htext
        obtain rfl := hstar h
        cases text with
        | nil => exact absurd htext (by simp)
        | cons d text =>
            obtain rfl := Option.some.inj htext
            exact hpair ⟨[], text, rfl⟩
      have hkept : st.kept c = [] := by rcases hst with rfl | rfl <;> rfl
      obtain ⟨st', hst', hhidden⟩ := hidden_comment hst₁ hfollows hrest
      exact ⟨st', hst', .cons hstep hkept hhidden⟩

/-- A line of a comment. -/
def docLine (line : List Char) : List Char :=
  (if line.isEmpty then " *".toList else " * ".toList ++ line) ++ ['\n']

theorem hidden_docLine {line : List Char} (h : ¬ ['*', '/'] <:+: line) :
    Hidden .block (docLine line) .block := by
  have hnewline : ∀ {st : LexState}, st = .block ∨ st = .star → Hidden st ['\n'] .block := by
    rintro st (rfl | rfl) <;> exact ⟨rfl, rfl⟩
  unfold docLine
  by_cases hempty : line.isEmpty = true
  · rw [if_pos hempty]
    exact ⟨rfl, rfl⟩
  · rw [if_neg hempty]
    obtain ⟨st, hst, hhidden⟩ := hidden_comment (Or.inl rfl : LexState.block = .block ∨ LexState.block = .star)
      (fun h => absurd h (by decide)) h
    have hstart : Hidden .block " * ".toList .block := ⟨rfl, rfl⟩
    exact (hstart.append hhidden).append (hnewline hst)

theorem hidden_docLines : ∀ {lines : List (List Char)}, (∀ l ∈ lines, ¬ ['*', '/'] <:+: l) →
    Hidden .block (lines.flatMap docLine) .block
  | [], _ => Hidden.nil _
  | line :: _, h => by
      rw [List.flatMap_cons]
      exact (hidden_docLine (h line List.mem_cons_self)).append
        (hidden_docLines fun l hl => h l (List.mem_cons_of_mem line hl))

/-- A comment of lines without `*/` is a comment up to its end. -/
theorem hidden_docText {lines : List (List Char)} (h : ∀ l ∈ lines, ¬ ['*', '/'] <:+: l) :
    Hidden .code (docText (some lines)) .code := by
  have hopen : Hidden .code "/**\n".toList .block := ⟨rfl, rfl⟩
  have hclose : Hidden .block " */\n".toList .code := ⟨rfl, rfl⟩
  exact (hopen.append (hidden_docLines h)).append hclose

/-- The comment of a description that opens no comment of its own. -/
theorem docLines?_of_plain {schema : Json} {description : String} {text : List Char}
    (hget : schema.getString? "description" = some description) (htext : Text.trim description.toList = text)
    (hempty : text.isEmpty = false) (hpair : ¬ ['*', '/'] <:+: text) :
    docLines? schema = some ((Text.lines text).map (Text.dropRightWhile Text.isBlank)) := by
  unfold docLines?
  simp only [hget]
  rw [htext, hempty, openComment, Text.replaceAll_pair_eq_self hpair]
  rfl

/-- **A description is a comment that does not end before its end.** -/
theorem hidden_docText_docLines? (schema : Json) : Hidden .code (docText (docLines? schema)) .code := by
  unfold docLines?
  split
  · exact Hidden.nil _
  · simp only
    split
    · exact Hidden.nil _
    · refine hidden_docText fun line hline hpair => ?_
      obtain ⟨whole, hwhole, rfl⟩ := List.mem_map.mp hline
      have hstart : Text.dropRightWhile Text.isBlank whole <+: whole := by
        unfold Text.dropRightWhile
        rw [← List.reverse_suffix, List.reverse_reverse]
        exact List.dropWhile_suffix _
      exact not_pair_infix_openComment _
        ((hpair.trans hstart.isInfix).trans (Text.infix_of_mem_lines hwhole))

theorem quiet_docText_docLines? (schema : Json) : Quiet (docText (docLines? schema)) :=
  (hidden_docText_docLines? schema).1

/-! ## Property names -/

theorem plain_of_isPlainIdentifier {name : List Char} (h : isPlainIdentifier name = true) :
    ∀ c ∈ name, isPlain c = true := by
  cases name with
  | nil => simp
  | cons c rest =>
      unfold isPlainIdentifier at h
      rw [Bool.and_eq_true, List.all_eq_true] at h
      obtain ⟨hfirst, hrest⟩ := h
      refine List.forall_mem_cons.mpr ⟨?_, fun d hd => ?_⟩
      · exact plain_of (p := fun c => c.isAlpha || c == '_' || c == '$') (by decide) hfirst
      · exact plain_of (p := fun c => c.isAlphanum || c == '_' || c == '$') (by decide) (hrest d hd)

/-- **A property name is quiet.** -/
theorem quiet_keyText (style : Style) (name : String) : Quiet (keyText style name) := by
  unfold keyText
  split
  · next h => exact quiet_of_plain (plain_of_isPlainIdentifier h)
  · exact quiet_quoteChars style _

/-! ## Indentation -/

/-- Behind a line feed stands code or a comment, and a carriage return before it changes nothing. -/
theorem step_newline {st st' : LexState} {w : List Char} (h : st.step '\n' = some (st', w)) :
    w = [] ∧ (st' = .code ∨ st' = .block) ∧ (st' = .code → st = .code) ∧ st.kept '\n' = [] := by
  cases st with
  | slash | quoted _ | escaped _ => simp [LexState.step] at h
  | code | block | star =>
      obtain ⟨rfl, rfl⟩ := Prod.mk.inj (Option.some.inj h)
      simp [LexState.kept, Text.isBlank]

/-- A line without its carriage return. -/
theorem lexes_dropReturn {st st₁ st₂ : LexState} {line w : List Char} (hline : Lexes st line st₁ w)
    (hnewline : st₁.step '\n' = some (st₂, [])) :
    ∃ st₃, Lexes st (Text.dropReturn line) st₃ w ∧ st₃.step '\n' = some (st₂, [])
      ∧ squeezed st (Text.dropReturn line) = squeezed st line := by
  unfold Text.dropReturn
  split
  · next h =>
      have hlast : line.getLast? = some '\r' := by simpa using h
      obtain ⟨init, rfl⟩ := List.getLast?_eq_some_iff.mp hlast
      rw [List.dropLast_concat]
      obtain ⟨st₃, w₁, w₂, hinit, hreturn, rfl⟩ := Lexes.append_inv hline
      obtain ⟨st₄, w₃, w₄, hstep, hnil, rfl⟩ := Lexes.cons_inv hreturn
      obtain ⟨rfl, rfl⟩ := Prod.mk.inj (Option.some.inj hnil)
      cases st₃ with
      | slash => simp [LexState.step] at hstep
      | quoted double =>
          cases double <;>
          · obtain ⟨rfl, rfl⟩ := Prod.mk.inj (Option.some.inj hstep)
            simp [LexState.step] at hnewline
      | escaped double =>
          obtain ⟨rfl, rfl⟩ := Prod.mk.inj (Option.some.inj hstep)
          simp [LexState.step] at hnewline
      | code | block | star =>
          obtain ⟨rfl, rfl⟩ := Prod.mk.inj (Option.some.inj hstep)
          rw [List.append_nil, List.append_nil]
          refine ⟨_, hinit, hnewline, ?_⟩
          rw [squeezed_append hinit]
          exact (List.append_nil _).symm
  · exact ⟨st₁, hline, hnewline, rfl⟩

/-- A line one level deeper. -/
def deepenLine (unit line : List Char) : List Char := if line.isEmpty then [] else unit ++ line

theorem lexes_deepenLine {unit : List Char} (hunit : ∀ c ∈ unit, Text.isBlank c = true)
    {st st' : LexState} (hst : st = .code ∨ st = .block) {line w : List Char} (h : Lexes st line st' w) :
    Lexes st (deepenLine unit line) st' w ∧ squeezed st (deepenLine unit line) = squeezed st line := by
  unfold deepenLine
  split
  · next hempty =>
      obtain rfl := List.isEmpty_iff.mp hempty
      exact ⟨h, rfl⟩
  · obtain ⟨hlex, hnothing⟩ := Hidden.blanks hst hunit
    refine ⟨hlex.append h, ?_⟩
    rw [squeezed_append hlex, hnothing]
    rfl

/-- Segments between line feeds, each line one level deeper. -/
theorem lexes_deepen {unit : List Char} (hunit : ∀ c ∈ unit, Text.isBlank c = true) :
    ∀ {segments : List (List Char)} {st : LexState} {w : List Char}, st = .code ∨ st = .block →
      Lexes st (Text.joinWith ['\n'] segments) .code w →
        let deeper := Text.joinWith ['\n'] ((Text.linesOfSegments segments).map (deepenLine unit))
        Lexes st deeper .code w ∧ squeezed st deeper = squeezed st (Text.joinWith ['\n'] segments)
  | [], _, _, _, h => ⟨h, rfl⟩
  | [s], st, w, hst, h => by
      have hs : Lexes st s .code w := h
      unfold Text.linesOfSegments
      split
      · next hempty =>
          obtain rfl := List.isEmpty_iff.mp hempty
          exact ⟨hs, rfl⟩
      · exact lexes_deepenLine hunit hst hs
  | s :: u :: rest, st, w, hst, h => by
      have htext : Text.joinWith ['\n'] (s :: u :: rest) = s ++ ('\n' :: Text.joinWith ['\n'] (u :: rest)) := by
        simp [Text.joinWith]
      rw [htext] at h
      obtain ⟨st₁, w₁, w', hs, htail, rfl⟩ := Lexes.append_inv h
      obtain ⟨st₂, w₂, w₃, hstep, hrest, rfl⟩ := Lexes.cons_inv htail
      obtain ⟨rfl, hst₂, hcode, hkept⟩ := step_newline hstep
      obtain ⟨st₃, hs', hstep', hsame⟩ := lexes_dropReturn hs hstep
      obtain ⟨-, -, hcode', hkept'⟩ := step_newline hstep'
      obtain ⟨hfirst, hsame'⟩ := lexes_deepenLine hunit hst hs'
      obtain ⟨hmore, hrestSame⟩ := lexes_deepen hunit hst₂ hrest
      have hlines : Text.linesOfSegments (s :: u :: rest)
          = Text.dropReturn s :: Text.linesOfSegments (u :: rest) := rfl
      have hleft : squeezed st (s ++ ('\n' :: Text.joinWith ['\n'] (u :: rest)))
          = squeezed st s ++ squeezed st₂ (Text.joinWith ['\n'] (u :: rest)) := by
        rw [squeezed_append hs, squeezed_cons hstep, hkept, List.nil_append]
      rw [hlines, List.map_cons, htext, hleft, ← hrestSame, ← hsame, ← hsame']
      cases hmap : (Text.linesOfSegments (u :: rest)).map (deepenLine unit) with
      | nil =>
          -- nothing follows the line feed, and the line feed goes too
          rw [hmap] at hmore
          obtain ⟨rfl, rfl⟩ := Prod.mk.inj (Option.some.inj hmore)
          rw [hcode' rfl] at hfirst
          exact ⟨by simpa [Text.joinWith] using hfirst, by simp [Text.joinWith, squeezed]⟩
      | cons v more =>
          rw [hmap] at hmore
          have hdeeper : Text.joinWith ['\n'] (deepenLine unit (Text.dropReturn s) :: v :: more)
              = deepenLine unit (Text.dropReturn s) ++ ('\n' :: Text.joinWith ['\n'] (v :: more)) := by
            simp [Text.joinWith]
          rw [hdeeper]
          refine ⟨hfirst.append (Lexes.cons hstep' hmore), ?_⟩
          rw [squeezed_append hfirst, squeezed_cons hstep', hkept', List.nil_append]

/-- **Indentation changes neither strings and comments nor brackets.** -/
theorem lexes_indentLines {unit : List Char} (hunit : ∀ c ∈ unit, Text.isBlank c = true)
    {text w : List Char} (h : Lexes .code text .code w) :
    Lexes .code (indentLines unit text) .code w := by
  rw [← Text.joinWith_splitAt '\n' text] at h
  exact (lexes_deepen hunit (Or.inl rfl) h).1

/-- **Indentation changes nothing but blanks.** -/
theorem squeezes_indentLines {unit : List Char} (hunit : ∀ c ∈ unit, Text.isBlank c = true)
    {text code : List Char} (h : Squeezes text code) : Squeezes (indentLines unit text) code := by
  obtain ⟨⟨w, hlex⟩, rfl⟩ := h
  refine ⟨⟨w, lexes_indentLines hunit hlex⟩, ?_⟩
  rw [← Text.joinWith_splitAt '\n' text] at hlex
  have hsame := (lexes_deepen hunit (Or.inl rfl) hlex).2
  rwa [Text.joinWith_splitAt] at hsame

end DecoderForge.Types
