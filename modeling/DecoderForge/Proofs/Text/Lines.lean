import DecoderForge.Style
import DecoderForge.Text.Blank
import Mathlib.Data.List.Infix
import Mathlib.Data.List.TakeWhile

/-!
# DecoderForge — texts in segments and in lines

A text taken apart at a separator can be put together again, and segments without the separator are found
again in their text.  Lines are segments whose carriage returns went with the line ends.

## The architecture

* **`splitAt_append_sep`**, **`splitAt_append`** — a text taken apart at one place.
* **`joinWith_splitAt`**, **`splitAt_joinWith`** — taking apart and putting together.
* **`trim_blanks_append`** — a trimmed text behind blanks is trimmed to itself.
* **`lines_joinWith`** — lines written with either line end are read back.
-/

namespace DecoderForge.Text

/-! ## Segments of a text -/

/-- A text has at least one segment. -/
theorem splitAt_ne_nil (sep : Char) : ∀ s : List Char, splitAt sep s ≠ []
  | [] => by simp [splitAt]
  | c :: s => by
      rw [splitAt.eq_def]
      cases hs : splitAt sep s with
      | nil => exact absurd hs (splitAt_ne_nil sep s)
      | cons first more => by_cases hc : c = sep <;> simp [hs, hc]

/-- A character other than the separator joins the first segment. -/
theorem splitAt_cons_of_ne {sep c : Char} (h : c ≠ sep) {s first : List Char}
    {more : List (List Char)} (hs : splitAt sep s = first :: more) :
    splitAt sep (c :: s) = (c :: first) :: more := by
  rw [splitAt.eq_def]
  simp [hs, h]

/-- A separator ends the first segment. -/
theorem splitAt_cons_sep (sep : Char) (s : List Char) :
    splitAt sep (sep :: s) = [] :: splitAt sep s := by
  rw [splitAt.eq_def]
  cases hs : splitAt sep s with
  | nil => exact absurd hs (splitAt_ne_nil sep s)
  | cons first more => simp [hs]

/-- A text without separators is one segment. -/
theorem splitAt_of_notMem {sep : Char} : ∀ {s : List Char}, sep ∉ s → splitAt sep s = [s]
  | [], _ => rfl
  | c :: s, h => by
      have hc : c ≠ sep := fun hc => h (by simp [hc])
      exact splitAt_cons_of_ne hc (splitAt_of_notMem fun hs => h (List.mem_cons_of_mem c hs))

/-- What stands in front of the first separator is the first segment. -/
theorem splitAt_append_sep {sep : Char} (s : List Char) :
    ∀ {p : List Char}, sep ∉ p → splitAt sep (p ++ sep :: s) = p :: splitAt sep s
  | [], _ => splitAt_cons_sep sep s
  | c :: p, h => by
      have hc : c ≠ sep := fun hc => h (by simp [hc])
      exact splitAt_cons_of_ne hc (splitAt_append_sep s fun hp => h (List.mem_cons_of_mem c hp))

/-- A text that is a single segment is that segment and has no separator. -/
theorem eq_of_splitAt_eq_singleton {sep : Char} :
    ∀ {s t : List Char}, splitAt sep s = [t] → t = s ∧ sep ∉ s
  | [], t, h => by simpa [splitAt, eq_comm] using h
  | c :: s, t, h => by
      by_cases hc : c = sep
      · subst hc
        rw [splitAt_cons_sep] at h
        exact absurd (List.cons.inj h).2 (splitAt_ne_nil c s)
      · cases hs : splitAt sep s with
        | nil => exact absurd hs (splitAt_ne_nil sep s)
        | cons first more =>
            rw [splitAt_cons_of_ne hc hs] at h
            obtain ⟨rfl, rfl⟩ := List.cons.inj h
            obtain ⟨rfl, hno⟩ := eq_of_splitAt_eq_singleton hs
            refine ⟨rfl, fun hmem => ?_⟩
            rcases List.mem_cons.mp hmem with h | h
            · exact hc h.symm
            · exact hno h

/-- A text is its segments with separators in between. -/
theorem joinWith_splitAt (sep : Char) : ∀ s : List Char, joinWith [sep] (splitAt sep s) = s
  | [] => rfl
  | c :: s => by
      have ih := joinWith_splitAt sep s
      cases hs : splitAt sep s with
      | nil => exact absurd hs (splitAt_ne_nil sep s)
      | cons first more =>
          rw [hs] at ih
          by_cases hc : c = sep
          · subst hc
            rw [splitAt_cons_sep, hs]
            show [] ++ [c] ++ joinWith [c] (first :: more) = _
            rw [ih]
            rfl
          · rw [splitAt_cons_of_ne hc hs]
            cases more with
            | nil => simpa [joinWith] using ih
            | cons second more =>
                show (c :: first) ++ [sep] ++ joinWith [sep] (second :: more) = _
                rw [← ih]
                rfl

/-- The segments between separators have none. -/
theorem notMem_of_mem_splitAt {sep : Char} : ∀ {s : List Char}, ∀ t ∈ splitAt sep s, sep ∉ t
  | [], t, h => by
      rw [splitAt, List.mem_singleton] at h
      simp [h]
  | c :: s, t, h => by
      by_cases hc : c = sep
      · subst hc
        rw [splitAt_cons_sep] at h
        rcases List.mem_cons.mp h with rfl | h
        · simp
        · exact notMem_of_mem_splitAt t h
      · cases hs : splitAt sep s with
        | nil => exact absurd hs (splitAt_ne_nil sep s)
        | cons first more =>
            rw [splitAt_cons_of_ne hc hs] at h
            have hrest : ∀ u ∈ first :: more, sep ∉ u := by
              rw [← hs]
              exact fun u hu => notMem_of_mem_splitAt u hu
            rcases List.mem_cons.mp h with rfl | h
            · intro hmem
              rcases List.mem_cons.mp hmem with hmem | hmem
              · exact hc hmem.symm
              · exact hrest first List.mem_cons_self hmem
            · exact hrest t (List.mem_cons_of_mem first h)

/-- Segments without the separator are found again in their text. -/
theorem splitAt_joinWith {sep : Char} : ∀ {segments : List (List Char)}, segments ≠ [] →
    (∀ t ∈ segments, sep ∉ t) → splitAt sep (joinWith [sep] segments) = segments
  | [s], _, h => splitAt_of_notMem (h s List.mem_cons_self)
  | s :: t :: rest, _, h => by
      have ih := splitAt_joinWith (List.cons_ne_nil t rest)
        fun u hu => h u (List.mem_cons_of_mem s hu)
      show splitAt sep (s ++ [sep] ++ joinWith [sep] (t :: rest)) = _
      rw [List.append_assoc, List.singleton_append, splitAt_append_sep _ (h s List.mem_cons_self), ih]

/-- The segments of a text before a separator, and those behind it. -/
theorem splitAt_append (sep : Char) (t : List Char) : ∀ s : List Char,
    splitAt sep (s ++ sep :: t) = splitAt sep s ++ splitAt sep t
  | [] => splitAt_cons_sep sep t
  | c :: s => by
      have ih := splitAt_append sep t s
      by_cases hc : c = sep
      · subst hc
        rw [List.cons_append, splitAt_cons_sep, ih, splitAt_cons_sep]
        rfl
      · cases hs : splitAt sep s with
        | nil => exact absurd hs (splitAt_ne_nil sep s)
        | cons first more =>
            rw [hs] at ih
            rw [List.cons_append, splitAt_cons_of_ne hc ih, splitAt_cons_of_ne hc hs]
            rfl

/-- A text begins with a separator exactly when its first segment is empty, unless it is empty itself. -/
theorem head?_eq_sep_iff {sep : Char} {s : List Char} (h : s ≠ []) :
    s.head? = some sep ↔ (splitAt sep s).head? = some [] := by
  cases s with
  | nil => exact absurd rfl h
  | cons c s =>
      by_cases hc : c = sep
      · subst hc
        simp [splitAt_cons_sep]
      · cases hs : splitAt sep s with
        | nil => exact absurd hs (splitAt_ne_nil sep s)
        | cons first more => simp [splitAt_cons_of_ne hc hs, hc]

/-- A segment stands in its text. -/
theorem infix_joinWith_of_mem (sep : List Char) : ∀ {segments : List (List Char)} {s : List Char},
    s ∈ segments → s <:+: joinWith sep segments
  | [t], s, h => by
      obtain rfl := List.mem_singleton.mp h
      exact List.infix_refl _
  | t :: u :: rest, s, h => by
      rcases List.mem_cons.mp h with rfl | h
      · exact ⟨[], sep ++ joinWith sep (u :: rest), by simp [joinWith]⟩
      · have hrest : joinWith sep (u :: rest) <:+ joinWith sep (t :: u :: rest) :=
          ⟨t ++ sep, by simp [joinWith]⟩
        exact (infix_joinWith_of_mem sep h).trans hrest.isInfix

/-- What a joined text holds stands in a separator or in a segment. -/
theorem mem_of_mem_joinWith {sep : List Char} {c : Char} : ∀ {segments : List (List Char)},
    c ∈ joinWith sep segments → c ∈ sep ∨ ∃ s ∈ segments, c ∈ s
  | [s], h => Or.inr ⟨s, List.mem_cons_self, h⟩
  | s :: t :: rest, h => by
      rcases List.mem_append.mp (show c ∈ s ++ sep ++ joinWith sep (t :: rest) from h) with h | h
      · rcases List.mem_append.mp h with h | h
        · exact Or.inr ⟨s, List.mem_cons_self, h⟩
        · exact Or.inl h
      · exact (mem_of_mem_joinWith h).imp_right fun ⟨u, hu, hc⟩ => ⟨u, List.mem_cons_of_mem s hu, hc⟩

/-- Segments that each have a separator behind them. -/
theorem joinWith_append_sep (sep : List Char) : ∀ {segments : List (List Char)}, segments ≠ [] →
    joinWith sep segments ++ sep = segments.flatMap (· ++ sep)
  | [s], _ => by simp [joinWith]
  | s :: t :: rest, _ => by
      have ih := joinWith_append_sep sep (List.cons_ne_nil t rest)
      rw [List.flatMap_cons, ← ih]
      simp [joinWith]

/-! ## The ends of a text -/

/-- What is dropped from the end of a text belongs to the class that is dropped. -/
theorem dropRightWhile_append (p : Char → Bool) (s : List Char) :
    ∃ t, dropRightWhile p s ++ t = s ∧ ∀ c ∈ t, p c = true := by
  refine ⟨(s.reverse.takeWhile p).reverse, ?_, fun c hc => ?_⟩
  · unfold dropRightWhile
    rw [← List.reverse_append, List.takeWhile_append_dropWhile, List.reverse_reverse]
  · rw [List.mem_reverse] at hc
    exact List.mem_takeWhile_imp hc

/-- What is left does not end in the class that is dropped. -/
theorem getLast?_dropRightWhile (p : Char → Bool) (s : List Char) :
    ∀ c ∈ (dropRightWhile p s).getLast?, p c = false := by
  intro c hc
  unfold dropRightWhile at hc
  rw [List.getLast?_reverse] at hc
  have hhead := List.head?_dropWhile_not p s.reverse
  rw [hc] at hhead
  exact hhead

/-- A text that does not end in the class loses nothing. -/
theorem dropRightWhile_of_getLast? {p : Char → Bool} {s : List Char}
    (h : ∀ c ∈ s.getLast?, p c = false) : dropRightWhile p s = s := by
  unfold dropRightWhile
  rw [List.getLast?_eq_head?_reverse] at h
  cases hs : s.reverse with
  | nil => rw [List.dropWhile_nil, ← hs, List.reverse_reverse]
  | cons c rest =>
      rw [hs] at h
      rw [List.dropWhile_cons_of_neg (by simp [h c rfl]), ← hs, List.reverse_reverse]

/-- A trimmed text does not end in a blank. -/
theorem getLast?_trim (s : List Char) : ∀ c ∈ (trim s).getLast?, isBlank c = false :=
  getLast?_dropRightWhile isBlank _

/-- A trimmed text does not begin with a blank. -/
theorem head?_trim (s : List Char) : ∀ c ∈ (trim s).head?, isBlank c = false := by
  intro c hc
  obtain ⟨blanks, heq, -⟩ := dropRightWhile_append isBlank (s.dropWhile isBlank)
  have hhead := List.head?_dropWhile_not isBlank s
  have hfirst : (s.dropWhile isBlank).head? = some c := by
    rw [← heq, List.head?_append]
    show (trim s).head?.or _ = _
    rw [hc]
    rfl
  rw [hfirst] at hhead
  exact hhead

theorem subset_of_dropRightWhile (p : Char → Bool) (s : List Char) : dropRightWhile p s ⊆ s := by
  obtain ⟨t, heq, -⟩ := dropRightWhile_append p s
  intro c hc
  rw [← heq]
  exact List.mem_append_left t hc

theorem subset_of_trim (s : List Char) : trim s ⊆ s := fun _ hc =>
  List.dropWhile_subset _ (subset_of_dropRightWhile isBlank _ hc)

/-- **Blanks in front of a trimmed text are trimmed.** -/
theorem trim_blanks_append {blanks : List Char} (h : ∀ c ∈ blanks, isBlank c = true)
    (s : List Char) : trim (blanks ++ trim s) = trim s := by
  have hfront : (trim s).dropWhile isBlank = trim s := by
    cases ht : trim s with
    | nil => rfl
    | cons c t => exact List.dropWhile_cons_of_neg (by simp [head?_trim s c (by rw [ht]; rfl)])
  show dropRightWhile isBlank ((blanks ++ trim s).dropWhile isBlank) = _
  rw [List.dropWhile_append_of_pos h, hfront]
  exact dropRightWhile_of_getLast? (getLast?_trim s)

/-- What belongs to the class is dropped from the end. -/
theorem dropRightWhile_append_of_pos {p : Char → Bool} {t : List Char} (h : ∀ c ∈ t, p c = true)
    (s : List Char) : dropRightWhile p (s ++ t) = dropRightWhile p s := by
  unfold dropRightWhile
  rw [List.reverse_append, List.dropWhile_append_of_pos fun c hc => h c (List.mem_reverse.mp hc)]

/-- Blanks behind a text are trimmed. -/
theorem trim_append_blanks {blanks : List Char} (h : ∀ c ∈ blanks, isBlank c = true) (s : List Char) :
    trim (s ++ blanks) = trim s := by
  unfold trim
  rw [List.dropWhile_append]
  split
  · next hempty =>
    -- nothing but blanks
    have hblanks : blanks.dropWhile isBlank = [] := List.dropWhile_eq_nil_iff.mpr h
    rw [List.isEmpty_iff.mp hempty, hblanks]
  · exact dropRightWhile_append_of_pos h _

/-- A text without some of the blanks at its end. -/
theorem trim_dropRightWhile {p : Char → Bool} (hp : ∀ c, p c = true → isBlank c = true) (s : List Char) :
    trim (dropRightWhile p s) = trim s := by
  obtain ⟨blanks, heq, hblanks⟩ := dropRightWhile_append p s
  rw [← trim_append_blanks (fun c hc => hp c (hblanks c hc)) (dropRightWhile p s), heq]

/-- A text is what is left of it when it is trimmed, with blanks at both ends. -/
theorem exists_eq_append_trim (s : List Char) : ∃ front back, s = front ++ (trim s ++ back)
    ∧ (∀ c ∈ front, isBlank c = true) ∧ ∀ c ∈ back, isBlank c = true := by
  obtain ⟨back, heq, hback⟩ := dropRightWhile_append isBlank (s.dropWhile isBlank)
  refine ⟨s.takeWhile isBlank, back, ?_, fun c hc => List.mem_takeWhile_imp hc, hback⟩
  show s = _ ++ (dropRightWhile isBlank (s.dropWhile isBlank) ++ back)
  rw [heq, List.takeWhile_append_dropWhile]

/-- A carriage return is a blank. -/
theorem isBlank_of_eq_return (c : Char) (h : (c == '\r') = true) : isBlank c = true := by
  rw [beq_iff_eq.mp h]
  rfl

/-- A row of spaces and tabs. -/
def Indents (front : List Char) : Prop := ∀ c ∈ front, c = ' ' ∨ c = '\t'

theorem Indents.isBlank {front : List Char} (h : Indents front) : ∀ c ∈ front, isBlank c = true := by
  intro c hc
  rcases h c hc with rfl | rfl <;> rfl

theorem Indents.single {front : List Char} (h : Indents front) : '\n' ∉ front := by
  intro hc
  rcases h _ hc with h | h <;> exact absurd h (by decide)

/-! ## Lines -/

/-- A line begins a segment. -/
theorem prefix_of_mem_linesOfSegments : ∀ {segments : List (List Char)} {line : List Char},
    line ∈ linesOfSegments segments → ∃ s ∈ segments, line <+: s
  | [s], line, h => by
      unfold linesOfSegments at h
      split at h
      · exact absurd h List.not_mem_nil
      · exact ⟨s, List.mem_cons_self, List.mem_singleton.mp h ▸ List.prefix_refl _⟩
  | s :: u :: rest, line, h => by
      rcases List.mem_cons.mp (show line ∈ dropReturn s :: linesOfSegments (u :: rest) from h) with
        rfl | h
      · refine ⟨s, List.mem_cons_self, ?_⟩
        unfold dropReturn
        split
        · exact List.dropLast_prefix s
        · exact List.prefix_refl s
      · obtain ⟨t, ht, hline⟩ := prefix_of_mem_linesOfSegments h
        exact ⟨t, List.mem_cons_of_mem s ht, hline⟩

/-- A line of a text stands in the text. -/
theorem infix_of_mem_lines {text line : List Char} (h : line ∈ lines text) : line <:+: text := by
  obtain ⟨s, hs, hline⟩ := prefix_of_mem_linesOfSegments h
  have hjoined := infix_joinWith_of_mem ['\n'] hs
  rw [joinWith_splitAt] at hjoined
  exact hline.isInfix.trans hjoined

/-- A line holds no line feed. -/
theorem newline_notMem_of_mem_lines {text line : List Char} (h : line ∈ lines text) :
    '\n' ∉ line := by
  obtain ⟨s, hs, hline⟩ := prefix_of_mem_linesOfSegments h
  exact fun hmem => notMem_of_mem_splitAt s hs (hline.subset hmem)

/-- The line in front of the first line feed, and the lines behind it. -/
theorem lines_append_newline {line : List Char} (h : '\n' ∉ line) (rest : List Char) :
    lines (line ++ '\n' :: rest) = dropReturn line :: lines rest := by
  unfold lines
  rw [splitAt_append_sep rest h]
  cases hs : splitAt '\n' rest with
  | nil => exact absurd hs (splitAt_ne_nil '\n' rest)
  | cons first more => rfl

/-- The lines in front of a line end, and those behind it. -/
theorem lines_append (s rest : List Char) :
    lines (s ++ '\n' :: rest) = (splitAt '\n' s).map dropReturn ++ lines rest := by
  have hsegments : ∀ {segments more : List (List Char)}, more ≠ [] →
      linesOfSegments (segments ++ more) = segments.map dropReturn ++ linesOfSegments more := by
    intro segments more hmore
    induction segments with
    | nil => rfl
    | cons t segments ih =>
        obtain ⟨u, tail, htail⟩ := List.exists_cons_of_ne_nil (show segments ++ more ≠ [] by simp [hmore])
        rw [List.cons_append, htail, linesOfSegments, ← htail, ih]
        · rfl
        · simp
  unfold lines
  rw [splitAt_append, hsegments (splitAt_ne_nil '\n' rest)]

/-- Lines that are read back when they are written with line ends. -/
def IsLine (line : List Char) : Prop := '\n' ∉ line ∧ line.getLast? ≠ some '\r'

/-- A line with its line end in front of other text. -/
theorem lines_cons_endOfLine {line : List Char} (h : IsLine line) (e : EndOfLine)
    (rest : List Char) : lines (line ++ e.chars ++ rest) = line :: lines rest := by
  cases e with
  | lf =>
      have hreturn : dropReturn line = line := by
        unfold dropReturn
        rw [if_neg (by simpa using h.2)]
      rw [EndOfLine.chars, List.append_assoc, List.singleton_append, lines_append_newline h.1, hreturn]
  | crlf =>
      have hreturn : dropReturn (line ++ ['\r']) = line := by
        unfold dropReturn
        rw [List.getLast?_concat, if_pos (by rfl), List.dropLast_concat]
      have hnewline : '\n' ∉ line ++ ['\r'] := by simpa using h.1
      have hsplit : line ++ EndOfLine.crlf.chars ++ rest = (line ++ ['\r']) ++ '\n' :: rest := by
        simp [EndOfLine.chars]
      rw [hsplit, lines_append_newline hnewline, hreturn]

/-- **Lines written with either line end are read back.** -/
theorem lines_joinWith (e : EndOfLine) : ∀ {ls : List (List Char)}, ls ≠ [] → (∀ l ∈ ls, IsLine l) →
    lines (joinWith e.chars ls ++ e.chars) = ls
  | [l], _, h => by
      have hlast := lines_cons_endOfLine (h l List.mem_cons_self) e []
      rwa [List.append_nil] at hlast
  | l :: m :: rest, _, h => by
      have ih := lines_joinWith e (List.cons_ne_nil m rest) fun t ht => h t (List.mem_cons_of_mem l ht)
      show lines (l ++ e.chars ++ joinWith e.chars (m :: rest) ++ e.chars) = _
      rw [List.append_assoc, lines_cons_endOfLine (h l List.mem_cons_self), ih]

end DecoderForge.Text

namespace DecoderForge.Style

/-! ## Indentation -/

/-- The indentation of a style is a row of spaces and tabs. -/
theorem indents_indentUnit (style : Style) : Text.Indents style.indentUnit := by
  intro c hc
  unfold indentUnit at hc
  split at hc
  · exact Or.inr (List.mem_singleton.mp hc)
  · exact Or.inl (List.eq_of_mem_replicate hc)

/-- The indentation of a style is blank. -/
theorem blank_indentUnit (style : Style) : ∀ c ∈ style.indentUnit, Text.isBlank c = true :=
  style.indents_indentUnit.isBlank

end DecoderForge.Style
