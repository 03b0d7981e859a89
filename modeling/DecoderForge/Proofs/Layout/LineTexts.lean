import DecoderForge.Proofs.Layout.Canonical
import DecoderForge.Proofs.Result
import Mathlib.Data.List.Chain

/-!
# DecoderForge — the lines of formatted text

Formatting decides on the blanks around the lines and on the empty lines between them, and on nothing else:
what is left of a line when it is trimmed stays, and stays in its place.  Which rule applies to a line depends
on the scanner in front of it, in the source as in what is written.

## The architecture

* **`Scanner.starts`** — lines, each with the scanner in front of it.
* **`lineTexts`** — what is left of the lines of a text when they are trimmed.
* **`Adds.textsOf_lines`**, **`Leads.textsOf_lines`** — one line, and all lines, keep them.
* **`Neat`** — what a run has written: no blanks at the ends of lines, no two empty lines in a row.
* **`Adds.neat`**, **`Leads.neat`** — one line, and all lines, write it so.
* **`format_lines`** — hence the same holds of formatted text.
-/

namespace DecoderForge.Layout

open Scanner

/-! ## Lines with the scanner in front of them -/

namespace Scanner

/-- The scanner behind a line; the one in front of it where the line does not fit. -/
def behind (s : Scanner) (line : List Char) : Scanner :=
  match s.scan line with
  | .ok s' => s'
  | .error _ => s

/-- Lines, each with the scanner in front of it. -/
def starts (s : Scanner) : List (List Char) → List (Scanner × List Char)
  | [] => []
  | line :: rest => (s, line) :: (s.behind line).starts rest

theorem behind_of_scan {s s' : Scanner} {line : List Char} (h : s.scan line = .ok s') : s.behind line = s' := by
  rw [behind, h]

theorem scanLines_append (s : Scanner) (a b : List (List Char)) :
    s.scanLines (a ++ b) = (s.scanLines a).bind fun s' => s'.scanLines b := by
  unfold scanLines
  rw [List.foldlM_append]
  rfl

/-- Lines behind others start where those end. -/
theorem starts_append : ∀ {a : List (List Char)} {s s' : Scanner}, s.scanLines a = .ok s' →
    ∀ b, s.starts (a ++ b) = s.starts a ++ s'.starts b
  | [], _, _, h, _ => by
      obtain rfl := Except.ok.inj h
      rfl
  | line :: a, s, s', h, b => by
      rw [scanLines_cons] at h
      obtain ⟨s₁, hscan, hrest⟩ := bind_eq_ok (x := s.scan line) h
      show (s, line) :: (s.behind line).starts (a ++ b) = (s, line) :: ((s.behind line).starts a ++ _)
      rw [behind_of_scan hscan, starts_append hrest b]

/-- A line more. -/
theorem scanLines_concat {s s' s'' : Scanner} {a : List (List Char)} {line : List Char}
    (h : s.scanLines a = .ok s') (h' : s'.scan line = .ok s'') : s.scanLines (a ++ [line]) = .ok s'' := by
  rw [scanLines_append, h]
  show s'.scanLines [line] = _
  rw [scanLines_cons, h']
  rfl

end Scanner

/-- A line is scanned as it is read, whatever is written for it. -/
theorem Adds.scan {unit : List Char} {p p' : Progress} {raw : List Char} (h : Adds unit p raw p')
    (hp : p.scanner.AtLineStart) : p.scanner.scan raw = .ok p'.scanner :=
  (formatLine_scanner unit 0 hp raw p'.scanner).mp ⟨p', formatLine_eq_ok_iff.mpr h, rfl⟩

/-! ## Texts of lines -/

/-- What is left of lines when they are trimmed, where anything is. -/
def textsOf (lines : List (List Char)) : List (List Char) :=
  (lines.map Text.trim).filter fun text => !text.isEmpty

/-- What is left of the lines of a text when they are trimmed. -/
def lineTexts (text : String) : List (List Char) := textsOf (Text.lines text.toList)

theorem textsOf_append (a b : List (List Char)) : textsOf (a ++ b) = textsOf a ++ textsOf b := by
  unfold textsOf
  rw [List.map_append, List.filter_append]

/-- A line has one text or, where it is blank, none. -/
theorem textsOf_singleton (line : List Char) :
    textsOf [line] = if (Text.trim line).isEmpty then [] else [Text.trim line] := by
  unfold textsOf
  cases h : (Text.trim line).isEmpty <;> simp [h]

/-- A line with the text of another. -/
theorem textsOf_singleton_congr {line line' : List Char} (h : Text.trim line = Text.trim line') :
    textsOf [line] = textsOf [line'] := by
  rw [textsOf_singleton, textsOf_singleton, h]

/-- **A line adds its text.** -/
theorem Adds.textsOf_lines {style : Style} {p p' : Progress} {raw : List Char}
    (h : Adds style.indentUnit p raw p') :
    textsOf p'.lines.reverse = textsOf p.lines.reverse ++ textsOf [raw] := by
  have hkept : Text.trim (Text.dropRightWhile (· == '\r') raw) = Text.trim raw :=
    Text.trim_dropRightWhile Text.isBlank_of_eq_return raw
  have hblank (htrim : Text.trim (Text.dropRightWhile (· == '\r') raw) = []) : textsOf [raw] = [] := by
    rw [textsOf_singleton, ← hkept, htrim]
    rfl
  cases h with
  | template hregion hscan =>
      rw [List.reverse_cons, textsOf_append, textsOf_singleton_congr hkept]
  | empty hregion htrim hfirst =>
      rw [List.reverse_cons, textsOf_append, hblank htrim]
      rfl
  | skipped hregion htrim hfirst =>
      rw [hblank htrim, List.append_nil]
  | laid hregion htrim hscan =>
      obtain ⟨front, hlaid, hindents⟩ :=
        layLine_eq style p.scanner (Text.trim (Text.dropRightWhile (· == '\r') raw))
      rw [List.reverse_cons, textsOf_append, hlaid]
      refine congrArg _ (textsOf_singleton_congr ?_)
      rw [Text.trim_blanks_append hindents.isBlank, hkept]

/-- **All lines add their texts.** -/
theorem Leads.textsOf_lines {style : Style} {p p' : Progress} {source : List (List Char)}
    (h : Leads style.indentUnit p source p') :
    textsOf p'.lines.reverse = textsOf p.lines.reverse ++ textsOf source := by
  induction h with
  | nil p => exact (List.append_nil _).symm
  | @cons p p₁ p' raw rest hline _ ih =>
      rw [ih, hline.textsOf_lines, List.append_assoc, ← textsOf_append]
      rfl

/-- Empty lines have no text. -/
theorem textsOf_dropWhile_isEmpty : ∀ lines : List (List Char),
    textsOf (lines.dropWhile List.isEmpty).reverse = textsOf lines.reverse
  | [] => rfl
  | [] :: lines => by
      rw [List.reverse_cons, textsOf_append]
      show textsOf (lines.dropWhile List.isEmpty).reverse = _ ++ []
      rw [textsOf_dropWhile_isEmpty lines, List.append_nil]
  | (c :: line) :: lines => rfl

/-! ## What a run writes -/

/-- Two lines in a row are not both empty where both start outside a template. -/
def NotBothEmpty (a b : Scanner × List Char) : Prop :=
  a.1.region ≠ .template → b.1.region ≠ .template → a.2 = [] → b.2 ≠ []

/-- Lines without blanks at the ends of those that start outside a template, and without two empty ones in a
row there. -/
structure Neat (lines : List (List Char)) : Prop where
  ends : ∀ e ∈ Scanner.initial.starts lines, e.1.region ≠ .template →
    ∀ c ∈ e.2.getLast?, Text.isBlank c = false
  apart : (Scanner.initial.starts lines).IsChain NotBothEmpty

/-- A run whose scanner has read what is written, which is neat and begins with a text.  The last line is empty
only behind an empty line of the source, or in a template. -/
structure Progress.Neat (p : Progress) : Prop where
  scanned : Scanner.initial.scanLines p.lines.reverse = .ok p.scanner
  atLineStart : p.scanner.AtLineStart
  written : Layout.Neat p.lines.reverse
  blankRun : p.blankRun = false → ∀ e ∈ (Scanner.initial.starts p.lines.reverse).getLast?,
    e.1.region ≠ .template → e.2 ≠ []
  first : ∀ line ∈ p.lines.getLast?, Text.trim line ≠ []

theorem Progress.neat_start : Progress.start.Neat where
  scanned := rfl
  atLineStart := ⟨by decide, by decide⟩
  written := ⟨by simp [start, Scanner.starts], .nil⟩
  blankRun := by simp [start, Scanner.starts]
  first := by simp [start]

/-- Before anything is written the scanner is in code. -/
theorem Progress.Neat.ne_nil {p : Progress} (h : p.Neat) (hregion : p.scanner.region = .template) :
    p.lines ≠ [] := by
  intro hnil
  have hscanned := h.scanned
  rw [hnil] at hscanned
  have hinitial : Scanner.initial = p.scanner := Except.ok.inj hscanned
  rw [← hinitial] at hregion
  exact absurd hregion (by decide)

/-- Neat lines stay so with a line more that neither ends in a blank nor is empty behind an empty one, unless it
starts in a template. -/
theorem Neat.concat {lines : List (List Char)} {s : Scanner} {line : List Char} (h : Neat lines)
    (hscanned : Scanner.initial.scanLines lines = .ok s)
    (hends : s.region ≠ .template → ∀ c ∈ line.getLast?, Text.isBlank c = false)
    (hapart : ∀ e ∈ (Scanner.initial.starts lines).getLast?, NotBothEmpty e (s, line)) :
    Neat (lines ++ [line]) := by
  have hstarts : Scanner.initial.starts (lines ++ [line]) = Scanner.initial.starts lines ++ [(s, line)] :=
    starts_append hscanned [line]
  refine ⟨?_, ?_⟩
  · rw [hstarts]
    intro e he
    rcases List.mem_append.mp he with he | he
    · exact h.ends e he
    · rw [List.mem_singleton.mp he]
      exact hends
  · rw [hstarts]
    refine h.apart.append (.singleton _) fun e he e' he' => ?_
    obtain rfl : (s, line) = e' := by simpa using he'
    exact hapart e he

/-- **A line is written neatly.** -/
theorem Adds.neat {style : Style} {p p' : Progress} {raw : List Char} (h : Adds style.indentUnit p raw p')
    (hp : p.Neat) : p'.Neat := by
  have hlast {line : List Char} : (Scanner.initial.starts (p.lines.reverse ++ [line])).getLast?
      = some (p.scanner, line) := by
    rw [starts_append hp.scanned]
    exact List.getLast?_concat
  cases h with
  | @template s hregion hscan =>
      have hregion : p.scanner.region = .template := by simpa using hregion
      obtain ⟨first, rest, hlines⟩ := List.exists_cons_of_ne_nil (hp.ne_nil hregion)
      refine ⟨?_, atLineStart_of_scan hscan, ?_, fun _ => ?_, ?_⟩
      · rw [List.reverse_cons]
        exact scanLines_concat hp.scanned hscan
      · rw [List.reverse_cons]
        exact hp.written.concat hp.scanned (fun hno => absurd hregion hno) fun _ _ _ hno => absurd hregion hno
      · rw [List.reverse_cons, hlast]
        rintro _ ⟨⟩ hno
        exact absurd hregion hno
      · show ∀ line ∈ (_ :: p.lines).getLast?, _
        rw [hlines, List.getLast?_cons_cons, ← hlines]
        exact hp.first
  | empty hregion htrim hfirst =>
      rw [Bool.and_eq_true, Bool.not_eq_true', Bool.not_eq_true'] at hfirst
      obtain ⟨first, rest, hlines⟩ := List.exists_cons_of_ne_nil (l := p.lines) (by simpa using hfirst.2)
      refine ⟨?_, hp.atLineStart, ?_, fun hno => absurd hno (by simp), ?_⟩
      · rw [List.reverse_cons]
        exact scanLines_concat hp.scanned (scan_nil hp.atLineStart)
      · rw [List.reverse_cons]
        refine hp.written.concat hp.scanned (fun _ => by simp) fun e he hout _ hempty => ?_
        exact absurd hempty (hp.blankRun hfirst.1 e he hout)
      · show ∀ line ∈ ([] :: p.lines).getLast?, _
        rw [hlines, List.getLast?_cons_cons, ← hlines]
        exact hp.first
  | skipped hregion htrim hfirst =>
      exact ⟨hp.scanned, hp.atLineStart, hp.written, fun hno => absurd hno (by simp), hp.first⟩
  | @laid s hregion htrim hscan =>
      obtain ⟨front, hlaid, hindents⟩ :=
        layLine_eq style p.scanner (Text.trim (Text.dropRightWhile (· == '\r') raw))
      rw [hlaid]
      have hends : ∀ c ∈ (front ++ Text.trim (Text.dropRightWhile (· == '\r') raw)).getLast?,
          Text.isBlank c = false := by
        rw [List.getLast?_append_of_ne_nil _ htrim]
        exact Text.getLast?_trim _
      have hne : front ++ Text.trim (Text.dropRightWhile (· == '\r') raw) ≠ [] := by simp [htrim]
      refine ⟨?_, atLineStart_of_scan hscan, ?_, fun _ => ?_, ?_⟩
      · rw [List.reverse_cons]
        exact scanLines_concat hp.scanned ((scan_blanks_append _ hindents.isBlank _).trans hscan)
      · rw [List.reverse_cons]
        exact hp.written.concat hp.scanned (fun _ => hends) fun _ _ _ _ _ => hne
      · rw [List.reverse_cons, hlast]
        rintro _ ⟨⟩ -
        exact hne
      · show ∀ line ∈ (_ :: p.lines).getLast?, _
        cases hlines : p.lines with
        | nil =>
            rw [List.getLast?_singleton]
            rintro _ ⟨⟩
            rw [Text.trim_blanks_append hindents.isBlank]
            exact htrim
        | cons first rest =>
            rw [List.getLast?_cons_cons, ← hlines]
            exact hp.first

theorem Leads.neat {style : Style} {p p' : Progress} {source : List (List Char)}
    (h : Leads style.indentUnit p source p') (hp : p.Neat) : p'.Neat := by
  induction h with
  | nil => exact hp
  | cons hline _ ih => exact ih (hline.neat hp)

/-- What is left out at the end of neat lines leaves neat lines. -/
theorem Neat.of_append {a b : List (List Char)} {s : Scanner} (hscanned : Scanner.initial.scanLines a = .ok s)
    (h : Neat (a ++ b)) : Neat a := by
  obtain ⟨hends, hapart⟩ := h
  rw [starts_append hscanned] at hends hapart
  exact ⟨fun e he => hends e (List.mem_append_left _ he), hapart.left_of_append⟩

/-- The lines in front of others are scanned first. -/
theorem Scanner.scanLines_of_append {s s'' : Scanner} {a b : List (List Char)}
    (h : s.scanLines (a ++ b) = .ok s'') : ∃ s', s.scanLines a = .ok s' ∧ s'.scanLines b = .ok s'' := by
  rw [scanLines_append] at h
  exact bind_eq_ok (x := s.scanLines a) h

/-! ## Texts -/

/-- The lines that are written, and the empty ones at the end that are not. -/
theorem Progress.lines_eq (p : Progress) :
    p.lines = p.lines.takeWhile List.isEmpty ++ p.lines.dropWhile List.isEmpty :=
  List.takeWhile_append_dropWhile.symm

/-- The text is the lines that are written, each with its line end. -/
theorem Progress.text_eq_flatMap (style : Style) {p : Progress} (hsome : p.lines.dropWhile List.isEmpty ≠ []) :
    p.text style = (p.lines.dropWhile List.isEmpty).reverse.flatMap (· ++ style.endOfLine.chars) :=
  Text.joinWith_append_sep _ (by simpa using hsome)

/-- The first line that is written is the first of all. -/
theorem Progress.Neat.first_written {p : Progress} (h : p.Neat) (hsome : p.lines.dropWhile List.isEmpty ≠ []) :
    ∃ first rest, (p.lines.dropWhile List.isEmpty).reverse = first :: rest ∧ Text.trim first ≠ [] := by
  obtain ⟨first, rest, hfirst⟩ := List.exists_cons_of_ne_nil (List.reverse_ne_nil_iff.mpr hsome)
  refine ⟨first, rest, hfirst, h.first first ?_⟩
  rw [p.lines_eq, List.getLast?_append_of_ne_nil _ hsome, List.getLast?_eq_head?_reverse, hfirst]
  rfl

/-- The last line that is written ends in a character that is no line end. -/
theorem Leads.last_written {style : Style} {source : List Char} {p : Progress}
    (h : Leads style.indentUnit .start (Text.lines source) p) (hsome : p.lines.dropWhile List.isEmpty ≠ []) :
    ∃ body c, p.text style = body ++ [c] ++ style.endOfLine.chars ∧ c ≠ '\n' ∧ c ≠ '\r' := by
  obtain ⟨last, before, hlast⟩ := List.exists_cons_of_ne_nil hsome
  have hmem : last ∈ p.lines := List.dropWhile_subset _ (hlast ▸ List.mem_cons_self)
  have hline : Text.IsLine last := h.isLine (fun raw hraw => Text.newline_notMem_of_mem_lines hraw)
    (fun l hl => absurd hl List.not_mem_nil) last hmem
  have hne : last ≠ [] := by
    rintro rfl
    have hhead := List.head?_dropWhile_not List.isEmpty p.lines
    rw [hlast] at hhead
    exact absurd hhead (by simp)
  obtain ⟨init, c, rfl⟩ := (List.eq_nil_or_concat' last).resolve_left hne
  refine ⟨before.reverse.flatMap (· ++ style.endOfLine.chars) ++ init, c, ?_, ?_, ?_⟩
  · rw [Progress.text_eq_flatMap style hsome, hlast]
    simp
  · rintro rfl
    exact hline.1 (by simp)
  · rintro rfl
    exact hline.2 (by simp)

/-- **The lines of formatted text.**  They have the texts of the lines of the source, in the same order.  Where
there are any, the first line has one, the last one ends in a single line end of the style, and no line that
starts outside a template ends in a blank or is empty behind another one that is. -/
theorem format_lines {source t : String} {style : Style} (h : format source style = .ok t) :
    lineTexts t = lineTexts source
      ∧ (lineTexts source ≠ [] →
          (∃ first rest, Text.lines t.toList = first :: rest ∧ Text.trim first ≠ [])
            ∧ (∃ body c, t.toList = body ++ [c] ++ style.endOfLine.chars ∧ c ≠ '\n' ∧ c ≠ '\r')
            ∧ Neat (Text.lines t.toList)) := by
  obtain ⟨cs, hcs, rfl⟩ := map_eq_ok h
  obtain ⟨p, hlead, -, -, rfl⟩ := formatChars_eq_ok_iff.mp hcs
  have hneat : p.Neat := hlead.neat Progress.neat_start
  have htexts : textsOf (p.lines.dropWhile List.isEmpty).reverse = lineTexts source := by
    rw [textsOf_dropWhile_isEmpty]
    exact hlead.textsOf_lines
  unfold lineTexts at htexts ⊢
  rw [String.toList_ofList]
  by_cases hsome : p.lines.dropWhile List.isEmpty = []
  · -- nothing is written, since no line has a text
    rw [hsome] at htexts
    rw [Progress.text_of_nil hsome, lines_endOfLine, ← htexts]
    exact ⟨rfl, fun hne => absurd rfl hne⟩
  · rw [hlead.lines_text hsome]
    refine ⟨htexts, fun _ => ⟨hneat.first_written hsome, hlead.last_written hsome, ?_⟩⟩
    have hscanned := hneat.scanned
    have hwritten := hneat.written
    rw [p.lines_eq, List.reverse_append] at hscanned hwritten
    obtain ⟨s, hscanned, -⟩ := scanLines_of_append hscanned
    exact hwritten.of_append hscanned

/-- A template with an empty line and blanks, and empty lines, blanks and carriage returns around it. -/
theorem format_lines_template :
    format "\r\n f(\x60a\r\n\r\n  b  \n\x60);  \n \n\t\n g();\n\n" { endOfLine := .crlf }
        = .ok "f(\x60a\r\n\r\n  b  \r\n\x60);  \r\n\r\ng();\r\n"
      ∧ lineTexts "f(\x60a\r\n\r\n  b  \r\n\x60);  \r\n\r\ng();\r\n"
          = lineTexts "\r\n f(\x60a\r\n\r\n  b  \n\x60);  \n \n\t\n g();\n\n"
      ∧ Neat (Text.lines "f(\x60a\r\n\r\n  b  \r\n\x60);  \r\n\r\ng();\r\n".toList) := by
  have h : format "\r\n f(\x60a\r\n\r\n  b  \n\x60);  \n \n\t\n g();\n\n" { endOfLine := .crlf }
      = .ok "f(\x60a\r\n\r\n  b  \r\n\x60);  \r\n\r\ng();\r\n" := by rfl
  have hsome : lineTexts "\r\n f(\x60a\r\n\r\n  b  \n\x60);  \n \n\t\n g();\n\n" ≠ [] := by decide
  exact ⟨h, (format_lines h).1, ((format_lines h).2 hsome).2.2⟩

end DecoderForge.Layout
