import DecoderForge.Proofs.Layout.LineTexts

/-!
# DecoderForge — templates in formatted text

Blanks inside a template literal are part of the program.  The formatter leaves the lines that begin in a
template as they are, but for carriage returns at their ends, and trims all others.  So a template loses the
blanks at the end of the line on which it opens, or on which code inside it closes, and nothing else.

## The architecture

* **`TemplateMark`**, **`templateMarks`** — what the templates of a text are made of.
* **`Scanner.kept`** — what is left of a line for the templates that go on behind it.
* **`Adds.marks`**, **`Leads.marks`** — one line, and all lines, write the marks of what is kept.
* **`templates_kept_iff`** — templates stay as they are exactly when every line is kept.
-/

namespace DecoderForge.Layout

open Scanner

/-! ## What templates are made of -/

/-- What a template literal is made of. -/
inductive TemplateMark where
  /-- A character between the backticks, outside of code; the dollar sign in front of code is among them. -/
  | text (c : Char)
  /-- A backtick at either end, or a brace at either end of code. -/
  | border (c : Char)
  /-- The end of a line, however it is written. -/
  | lineEnd
deriving DecidableEq, Repr

/-- The mark of a character that is read between two scanners. -/
def markOf (before : Scanner) (c : Char) (after : Scanner) : List TemplateMark :=
  match before.region == .template, after.region == .template with
  | true, true => [.text c]
  | false, false => []
  | _, _ => [.border c]

/-- The marks of the characters of a line, up to one that does not fit. -/
def Reader.marks (r : Reader) : List Char → List TemplateMark
  | [] => []
  | c :: rest =>
    match r.step c with
    | .ok r' => markOf r.scanner c r'.scanner ++ r'.marks rest
    | .error _ => []

/-- The mark of a line end. -/
def endMark (s : Scanner) : List TemplateMark := if s.region == .template then [.lineEnd] else []

/-- The marks of a line with the scanner in front of it. -/
def lineMarks (e : Scanner × List Char) : List TemplateMark :=
  (Reader.fresh e.1).marks e.2 ++ endMark (e.1.behind e.2)

/-- **What the templates of a text are made of**, from the first to the last. -/
def templateMarks (text : String) : List TemplateMark :=
  (Scanner.initial.starts (Text.lines text.toList)).flatMap lineMarks

namespace Reader

theorem marks_cons {r r' : Reader} {c : Char} (h : r.step c = .ok r') (rest : List Char) :
    r.marks (c :: rest) = markOf r.scanner c r'.scanner ++ r'.marks rest := by
  rw [marks, h]

/-- The marks of what is read first, and those of what is read behind it. -/
theorem marks_append : ∀ {a : List Char} {r r' : Reader}, r.read a = .ok r' → ∀ b : List Char,
    r.marks (a ++ b) = r.marks a ++ r'.marks b
  | [], _, _, h, _ => by
      obtain rfl := Except.ok.inj h
      rfl
  | c :: a, r, r', h, b => by
      rw [read_cons] at h
      obtain ⟨r₁, hstep, hrest⟩ := bind_eq_ok (x := r.step c) h
      rw [List.cons_append, marks_cons hstep, marks_cons hstep, marks_append hrest b, List.append_assoc]

/-- **Blanks are text in a template**, and mean nothing anywhere else. -/
theorem marks_blanks : ∀ {blanks : List Char}, (∀ c ∈ blanks, Text.isBlank c = true) → ∀ r : Reader,
    r.marks blanks = if r.scanner.region == .template then blanks.map .text else []
  | [], _, r => by simp [marks]
  | c :: rest, h, r => by
      obtain ⟨r', hstep, hscanner⟩ := step_blank r (h c List.mem_cons_self)
      rw [marks_cons hstep, marks_blanks (fun d hd => h d (List.mem_cons_of_mem c hd)) r', hscanner]
      cases hregion : r.scanner.region == .template <;> simp [markOf, hregion]

end Reader

/-! ## Lines -/

namespace Scanner

open Reader

/-- A line that is scanned is read. -/
theorem exists_read_of_scan {s s' : Scanner} {line : List Char} (h : s.scan line = .ok s') :
    ∃ r, (fresh s).read line = .ok r ∧ r.scanner = s' := by
  rw [scan_eq_read] at h
  obtain ⟨r', hend, rfl⟩ := map_eq_ok h
  obtain ⟨r, hread, hend⟩ := bind_eq_ok (x := (fresh s).read line) hend
  obtain ⟨rfl, -⟩ := eq_fresh_of_endLine hend
  exact ⟨r, hread, rfl⟩

/-- Blanks in front of a line that starts outside a template. -/
theorem lineMarks_blanks_append {s : Scanner} (hs : (s.region == .template) = false) {front : List Char}
    (hfront : ∀ c ∈ front, Text.isBlank c = true) (line : List Char) :
    lineMarks (s, front ++ line) = lineMarks (s, line) := by
  have hmarks : (fresh s).marks (front ++ line) = (fresh s).marks line := by
    rw [marks_append (read_blanks_fresh s front hfront), marks_blanks hfront]
    show (if s.region == .template then _ else []) ++ _ = _
    rw [hs]
    rfl
  have hbehind : s.behind (front ++ line) = s.behind line := by
    unfold behind
    rw [scan_blanks_append s hfront]
  show (fresh s).marks (front ++ line) ++ endMark (s.behind (front ++ line)) = _
  rw [hmarks, hbehind]
  rfl

/-- Blanks at the end of a line: text where a template goes on behind it. -/
theorem lineMarks_append_blanks {s s' : Scanner} {line : List Char} (h : s.scan line = .ok s')
    {back : List Char} (hback : ∀ c ∈ back, Text.isBlank c = true) :
    lineMarks (s, line ++ back)
      = (fresh s).marks line ++ ((if s'.region == .template then back.map .text else []) ++ endMark s') := by
  obtain ⟨r, hread, rfl⟩ := exists_read_of_scan h
  have hbehind : s.behind (line ++ back) = r.scanner :=
    behind_of_scan ((scan_append_blanks s line hback).trans h)
  show (fresh s).marks (line ++ back) ++ endMark (s.behind (line ++ back)) = _
  rw [hbehind, marks_append hread, marks_blanks hback, List.append_assoc]

/-- Blanks at the end of a line that ends outside a template. -/
theorem lineMarks_append_blanks_of_outside {s s' : Scanner} {line : List Char} (h : s.scan line = .ok s')
    (hs' : (s'.region == .template) = false) {back : List Char} (hback : ∀ c ∈ back, Text.isBlank c = true) :
    lineMarks (s, line ++ back) = lineMarks (s, line) := by
  rw [lineMarks_append_blanks h hback, hs']
  show _ = (fresh s).marks line ++ endMark (s.behind line)
  rw [behind_of_scan h]
  rfl

/-- A blank line outside of templates. -/
theorem lineMarks_blanks {s : Scanner} (hs : s.AtLineStart) (hregion : (s.region == .template) = false)
    {line : List Char} (hline : ∀ c ∈ line, Text.isBlank c = true) : lineMarks (s, line) = [] := by
  have hblanks := lineMarks_append_blanks_of_outside (scan_nil hs) hregion hline
  rw [List.nil_append] at hblanks
  rw [hblanks]
  show endMark (s.behind []) = []
  rw [behind_of_scan (scan_nil hs), endMark, hregion]
  rfl

/-- **What is left of a line for the templates that go on behind it**: all of it if it starts in a template, save
for carriage returns at its end, and otherwise all but the blanks at its end. -/
def kept (s : Scanner) (line : List Char) : List Char :=
  if (s.behind line).region == .template then
    Text.dropRightWhile (if s.region == .template then (· == '\r') else Text.isBlank) line
  else line

/-- What is kept of a line that starts in a template is written as it is. -/
theorem lineMarks_kept_of_template {s s' : Scanner} (hregion : (s.region == .template) = true) {line : List Char}
    (h : s.scan line = .ok s') :
    lineMarks (s, s.kept line) = lineMarks (s, Text.dropRightWhile (· == '\r') line) := by
  unfold kept
  rw [behind_of_scan h, hregion]
  cases hend : s'.region == .template with
  | true => rfl
  | false =>
      -- carriage returns behind the end of a template mean nothing
      obtain ⟨back, heq, hback⟩ := Text.dropRightWhile_append (· == '\r') line
      have hscan : s.scan (Text.dropRightWhile (· == '\r') line) = .ok s' :=
        (scan_dropRightWhile s Text.isBlank_of_eq_return line).trans h
      have hmarks := lineMarks_append_blanks_of_outside hscan hend
        fun c hc => Text.isBlank_of_eq_return c (hback c hc)
      rw [heq] at hmarks
      exact hmarks

/-- What is kept of a line that starts outside a template is written trimmed. -/
theorem lineMarks_kept_of_outside {s s' : Scanner} (hregion : (s.region == .template) = false) {line : List Char}
    (htrim : Text.trim line ≠ []) (h : s.scan line = .ok s') :
    lineMarks (s, s.kept line) = lineMarks (s, Text.trim line) := by
  obtain ⟨front, back, hline, hfront, hback⟩ := Text.exists_eq_append_trim line
  have hscan : s.scan (Text.trim line) = .ok s' := (scan_trim s line).trans h
  unfold kept
  rw [behind_of_scan h, hregion]
  cases hend : s'.region == .template with
  | true =>
      have hdrop : Text.dropRightWhile Text.isBlank line = front ++ Text.trim line := by
        conv_lhs => rw [hline, ← List.append_assoc, Text.dropRightWhile_append_of_pos hback]
        refine Text.dropRightWhile_of_getLast? fun c hc => ?_
        rw [List.getLast?_append_of_ne_nil _ htrim] at hc
        exact Text.getLast?_trim line c hc
      show lineMarks (s, Text.dropRightWhile Text.isBlank line) = _
      rw [hdrop, lineMarks_blanks_append hregion hfront]
  | false =>
      show lineMarks (s, line) = _
      conv_lhs => rw [hline]
      rw [lineMarks_blanks_append hregion hfront, lineMarks_append_blanks_of_outside hscan hend hback]

/-- Of a blank line outside of templates nothing is to be kept. -/
theorem lineMarks_kept_of_blank {s : Scanner} (hs : s.AtLineStart) (hregion : (s.region == .template) = false)
    {line : List Char} (htrim : Text.trim line = []) : lineMarks (s, s.kept line) = [] := by
  obtain ⟨front, back, hline, hfront, hback⟩ := Text.exists_eq_append_trim line
  have hblank : ∀ c ∈ line, Text.isBlank c = true := by
    intro c hc
    rw [hline, htrim, List.nil_append] at hc
    exact (List.mem_append.mp hc).elim (hfront c) (hback c)
  have hscan : s.scan line = .ok s := by
    rw [← scan_trim, htrim]
    exact scan_nil hs
  unfold kept
  rw [behind_of_scan hscan, hregion]
  exact lineMarks_blanks hs hregion hblank

end Scanner

/-! ## What is written -/

/-- The marks of a line alone. -/
theorem marks_starts_singleton (s : Scanner) (line : List Char) :
    (s.starts [line]).flatMap lineMarks = lineMarks (s, line) := List.append_nil _

theorem Scanner.scanLines_singleton {s s' : Scanner} {line : List Char} (h : s.scan line = .ok s') :
    s.scanLines [line] = .ok s' := by
  rw [scanLines_cons, h]
  rfl

/-- **A line is written with the marks of what is kept of it.** -/
theorem Adds.marks {style : Style} {p p' : Progress} {raw : List Char} (h : Adds style.indentUnit p raw p')
    (hp : p.scanner.AtLineStart) :
    ∃ new, p'.lines = new.reverse ++ p.lines ∧ p.scanner.scanLines new = .ok p'.scanner
      ∧ (p.scanner.starts new).flatMap lineMarks = lineMarks (p.scanner, p.scanner.kept raw) := by
  have hraw := h.scan hp
  have htrims : Text.trim (Text.dropRightWhile (· == '\r') raw) = Text.trim raw :=
    Text.trim_dropRightWhile Text.isBlank_of_eq_return raw
  cases h with
  | template hregion hscan =>
      refine ⟨[_], rfl, scanLines_singleton hscan, ?_⟩
      rw [marks_starts_singleton, lineMarks_kept_of_template hregion hraw]
  | empty hregion htrim hfirst =>
      refine ⟨[[]], rfl, scanLines_singleton (scan_nil hp), ?_⟩
      rw [marks_starts_singleton, lineMarks_kept_of_blank hp hregion (htrims ▸ htrim),
        lineMarks_blanks hp hregion (by simp)]
  | skipped hregion htrim hfirst =>
      refine ⟨[], rfl, rfl, ?_⟩
      rw [lineMarks_kept_of_blank hp hregion (htrims ▸ htrim)]
      rfl
  | laid hregion htrim hscan =>
      rw [htrims] at htrim hscan ⊢
      obtain ⟨front, hlaid, hindents⟩ := layLine_eq style p.scanner (Text.trim raw)
      refine ⟨[front ++ Text.trim raw], by rw [hlaid]; rfl,
        scanLines_singleton ((scan_blanks_append _ hindents.isBlank _).trans hscan), ?_⟩
      rw [marks_starts_singleton, lineMarks_blanks_append hregion hindents.isBlank,
        lineMarks_kept_of_outside hregion htrim hraw]

/-- The lines of the source are scanned as they are read. -/
theorem Leads.scanLines {unit : List Char} {p p' : Progress} {source : List (List Char)}
    (h : Leads unit p source p') (hp : p.scanner.AtLineStart) : p.scanner.scanLines source = .ok p'.scanner := by
  induction h with
  | nil => rfl
  | cons hline _ ih =>
      have hscan := hline.scan hp
      rw [scanLines_cons, hscan]
      exact ih (atLineStart_of_scan hscan)

/-- **All lines are written with the marks of what is kept of them.** -/
theorem Leads.marks {style : Style} {p p' : Progress} {source : List (List Char)}
    (h : Leads style.indentUnit p source p') (hp : p.scanner.AtLineStart) :
    ∃ new, p'.lines = new.reverse ++ p.lines ∧ p.scanner.scanLines new = .ok p'.scanner
      ∧ (p.scanner.starts new).flatMap lineMarks
        = (p.scanner.starts source).flatMap fun e => lineMarks (e.1, e.1.kept e.2) := by
  induction h with
  | nil p => exact ⟨[], rfl, rfl, rfl⟩
  | @cons p p₁ p' raw rest hline _ ih =>
      have hscan := hline.scan hp
      obtain ⟨new, hlines, hnew, hmarks⟩ := hline.marks hp
      obtain ⟨new', hlines', hnew', hmarks'⟩ := ih (atLineStart_of_scan hscan)
      refine ⟨new ++ new', ?_, ?_, ?_⟩
      · rw [hlines', hlines, List.reverse_append, List.append_assoc]
      · rw [scanLines_append, hnew]
        exact hnew'
      · rw [starts_append hnew, List.flatMap_append, hmarks, hmarks']
        show _ = lineMarks _ ++ List.flatMap _ ((p.scanner.behind raw).starts rest)
        rw [behind_of_scan hscan]

/-! ## What is lost -/

/-- Rows that are no longer than others make up a row that is no longer, and the same exactly when each of them
is. -/
theorem flatMap_eq_flatMap_iff {α β : Type} {f g : α → List β} : ∀ {l : List α},
    (∀ a ∈ l, (f a).length ≤ (g a).length) →
      (l.flatMap f).length ≤ (l.flatMap g).length ∧ (l.flatMap f = l.flatMap g ↔ ∀ a ∈ l, f a = g a)
  | [], _ => by simp
  | a :: l, h => by
      obtain ⟨ha, hl⟩ := List.forall_mem_cons.mp h
      obtain ⟨hle, hiff⟩ := flatMap_eq_flatMap_iff hl
      rw [List.flatMap_cons, List.flatMap_cons, List.forall_mem_cons, ← hiff, List.length_append, List.length_append]
      refine ⟨by omega, fun heq => ?_, fun ⟨heq, heqs⟩ => by rw [heq, heqs]⟩
      have hlength := congrArg List.length heq
      rw [List.length_append, List.length_append] at hlength
      exact List.append_inj heq (by omega)

/-- Every line of lines that fit does. -/
theorem Scanner.scan_of_mem_starts : ∀ {lines : List (List Char)} {s s' : Scanner}, s.scanLines lines = .ok s' →
    ∀ e ∈ s.starts lines, ∃ s'', e.1.scan e.2 = .ok s''
  | [], _, _, _ => by simp [starts]
  | line :: rest, s, s', h => by
      rw [scanLines_cons] at h
      obtain ⟨s₁, hscan, hrest⟩ := bind_eq_ok (x := s.scan line) h
      show ∀ e ∈ (s, line) :: (s.behind line).starts rest, _
      rw [behind_of_scan hscan]
      exact List.forall_mem_cons.mpr ⟨⟨s₁, hscan⟩, scan_of_mem_starts hrest⟩

/-- What is not kept of a line is text in the template that goes on behind it. -/
theorem Scanner.lineMarks_eq_kept {s s' : Scanner} {line : List Char} (h : s.scan line = .ok s') :
    ∃ lost, line = s.kept line ++ lost
      ∧ lineMarks (s, s.kept line) = (Reader.fresh s).marks (s.kept line) ++ endMark s'
      ∧ lineMarks (s, line) = (Reader.fresh s).marks (s.kept line) ++ (lost.map .text ++ endMark s') := by
  unfold kept
  rw [behind_of_scan h]
  cases hend : s'.region == .template with
  | false =>
      have hmarks : lineMarks (s, line) = (Reader.fresh s).marks line ++ endMark s' := by
        rw [lineMarks, behind_of_scan h]
      exact ⟨[], (List.append_nil line).symm, hmarks, hmarks⟩
  | true =>
      rw [if_pos rfl]
      generalize hp : (if s.region == .template then (· == '\r') else Text.isBlank) = p
      have hblank : ∀ c, p c = true → Text.isBlank c = true := by
        rw [← hp]
        split
        · exact Text.isBlank_of_eq_return
        · exact fun _ hc => hc
      obtain ⟨lost, heq, hlost⟩ := Text.dropRightWhile_append p line
      have hscan : s.scan (Text.dropRightWhile p line) = .ok s' := (scan_dropRightWhile s hblank line).trans h
      have hmarks := lineMarks_append_blanks hscan fun c hc => hblank c (hlost c hc)
      rw [heq, hend, if_pos rfl] at hmarks
      exact ⟨lost, heq.symm, by rw [lineMarks, behind_of_scan hscan], hmarks⟩

/-- A line has the marks of what is kept of it exactly when all of it is kept, and more otherwise. -/
theorem Scanner.lineMarks_kept {s s' : Scanner} {line : List Char} (h : s.scan line = .ok s') :
    (lineMarks (s, s.kept line)).length ≤ (lineMarks (s, line)).length
      ∧ (lineMarks (s, s.kept line) = lineMarks (s, line) ↔ s.kept line = line) := by
  obtain ⟨lost, hline, hkept, hmarks⟩ := lineMarks_eq_kept h
  refine ⟨?_, fun heq => ?_, fun heq => by rw [heq]⟩
  · rw [hkept, hmarks]
    simp
  · rw [hkept, hmarks, List.append_cancel_left_eq] at heq
    have hlost : lost = [] := by
      have hlength := congrArg List.length heq
      rw [List.length_append, List.length_map] at hlength
      exact List.length_eq_zero_iff.mp (by omega)
    rw [hlost, List.append_nil] at hline
    exact hline.symm

/-! ## Texts -/

/-- Empty lines leave the scanner as it is, and have no marks outside of templates. -/
theorem Scanner.scanLines_empty : ∀ {lines : List (List Char)}, (∀ line ∈ lines, line = []) →
    ∀ {s s' : Scanner}, s.AtLineStart → s.scanLines lines = .ok s' →
      s' = s ∧ ((s.region == .template) = false → (s.starts lines).flatMap lineMarks = [])
  | [], _, s, s', _, h => ⟨(Except.ok.inj h).symm, fun _ => rfl⟩
  | line :: rest, hempty, s, s', hs, h => by
      obtain ⟨rfl, hrest⟩ := List.forall_mem_cons.mp hempty
      rw [scanLines_cons, scan_nil hs] at h
      obtain ⟨hsame, hmarks⟩ := scanLines_empty hrest hs h
      refine ⟨hsame, fun hregion => ?_⟩
      show lineMarks (s, []) ++ ((s.behind []).starts rest).flatMap lineMarks = []
      rw [behind_of_scan (scan_nil hs), hmarks hregion, lineMarks_blanks hs hregion (by simp)]
      rfl

theorem Scanner.atLineStart_of_scanLines : ∀ {lines : List (List Char)} {s s' : Scanner}, s.AtLineStart →
    s.scanLines lines = .ok s' → s'.AtLineStart
  | [], _, _, hs, h => Except.ok.inj h ▸ hs
  | line :: rest, s, s', _, h => by
      rw [scanLines_cons] at h
      obtain ⟨s₁, hscan, hrest⟩ := bind_eq_ok (x := s.scan line) h
      exact atLineStart_of_scanLines (atLineStart_of_scan hscan) hrest

/-- The empty lines that are left out at the end have no marks. -/
theorem Progress.marks_dropWhile {p : Progress} (hscanned : Scanner.initial.scanLines p.lines.reverse = .ok p.scanner)
    (hregion : p.scanner.region = .code) :
    (Scanner.initial.starts (p.lines.dropWhile List.isEmpty).reverse).flatMap lineMarks
      = (Scanner.initial.starts p.lines.reverse).flatMap lineMarks := by
  have hstart : Scanner.initial.AtLineStart := ⟨by decide, by decide⟩
  rw [p.lines_eq, List.reverse_append] at hscanned
  obtain ⟨s, hkept, hempty⟩ := scanLines_of_append hscanned
  obtain ⟨hsame, hnone⟩ := scanLines_empty
    (fun line hline => List.isEmpty_iff.mp (List.mem_takeWhile_imp (List.mem_reverse.mp hline)))
    (atLineStart_of_scanLines hstart hkept) hempty
  have hmarks := hnone (by rw [← hsame, hregion]; rfl)
  conv_rhs => rw [p.lines_eq, List.reverse_append, starts_append hkept, List.flatMap_append, hmarks, List.append_nil]

/-- The lines of formatted text end in line ends of the style. -/
theorem Leads.text_eq_lines {style : Style} {source : List Char} {p : Progress}
    (h : Leads style.indentUnit .start (Text.lines source) p) :
    p.text style = (Text.lines (p.text style)).flatMap (· ++ style.endOfLine.chars)
      ∧ ∀ line ∈ Text.lines (p.text style), Text.IsLine line := by
  by_cases hsome : p.lines.dropWhile List.isEmpty = []
  · rw [Progress.text_of_nil hsome, lines_endOfLine]
    refine ⟨by simp, fun line hline => ?_⟩
    rw [List.mem_singleton.mp hline]
    exact ⟨List.not_mem_nil, by simp⟩
  · rw [h.lines_text hsome]
    refine ⟨Progress.text_eq_flatMap style hsome, fun line hline => ?_⟩
    exact h.isLine (fun raw hraw => Text.newline_notMem_of_mem_lines hraw)
      (fun l hl => absurd hl List.not_mem_nil) line (List.dropWhile_subset _ (List.mem_reverse.mp hline))

/-- The marks of formatted text are those of the lines that are written. -/
theorem Leads.marks_text {style : Style} {source : List Char} {p : Progress}
    (h : Leads style.indentUnit .start (Text.lines source) p) :
    (Scanner.initial.starts (Text.lines (p.text style))).flatMap lineMarks
      = (Scanner.initial.starts (p.lines.dropWhile List.isEmpty).reverse).flatMap lineMarks := by
  by_cases hsome : p.lines.dropWhile List.isEmpty = []
  · rw [Progress.text_of_nil hsome, lines_endOfLine, hsome]
    rfl
  · rw [h.lines_text hsome]

/-- **Templates in formatted text.**  Their line ends are those of the style, and they are made of what is kept of
the lines of the source: all, but for blanks at the end of a line that starts outside a template and ends in one,
and for carriage returns at the end of a line that starts and ends in one.  So they stay as they are exactly when
no line loses any. -/
theorem templates_kept_iff {source t : String} {style : Style} (h : format source style = .ok t) :
    (t.toList = (Text.lines t.toList).flatMap (· ++ style.endOfLine.chars)
        ∧ ∀ line ∈ Text.lines t.toList, Text.IsLine line)
      ∧ templateMarks t = (Scanner.initial.starts (Text.lines source.toList)).flatMap
          (fun e => lineMarks (e.1, e.1.kept e.2))
      ∧ (templateMarks t = templateMarks source
          ↔ ∀ e ∈ Scanner.initial.starts (Text.lines source.toList), e.1.kept e.2 = e.2) := by
  obtain ⟨cs, hcs, rfl⟩ := map_eq_ok h
  obtain ⟨p, hlead, hregion, -, rfl⟩ := formatChars_eq_ok_iff.mp hcs
  have hstart : Progress.start.scanner.AtLineStart := ⟨by decide, by decide⟩
  obtain ⟨new, hlines, hscanned, hmarks⟩ := hlead.marks hstart
  obtain rfl : p.lines.reverse = new := by rw [hlines]; simp [Progress.start]
  have hwritten : templateMarks (String.ofList (p.text style))
      = (Scanner.initial.starts (Text.lines source.toList)).flatMap fun e => lineMarks (e.1, e.1.kept e.2) := by
    unfold templateMarks
    rw [String.toList_ofList, hlead.marks_text, Progress.marks_dropWhile hscanned hregion]
    exact hmarks
  have hscans := scan_of_mem_starts (hlead.scanLines hstart)
  refine ⟨?_, hwritten, ?_⟩
  · rw [String.toList_ofList]
    exact hlead.text_eq_lines
  · have hle : ∀ e ∈ Scanner.initial.starts (Text.lines source.toList),
        (lineMarks (e.1, e.1.kept e.2)).length ≤ (lineMarks e).length := by
      intro e he
      obtain ⟨s', hscan⟩ := hscans e he
      exact (lineMarks_kept hscan).1
    rw [hwritten, templateMarks, (flatMap_eq_flatMap_iff hle).2]
    refine forall₂_congr fun e he => ?_
    obtain ⟨s', hscan⟩ := hscans e he
    exact (lineMarks_kept hscan).2

/-- Templates with empty lines and with blanks in front of line ends, around code that holds another one. -/
theorem templates_kept_iff_nested :
    format "f(\x60\r\n  a  \r\n\r\n$\x7bg(\x60b\x60)\x7d c \r\n\x60);\r\n" {}
        = .ok "f(\x60\n  a  \n\n$\x7bg(\x60b\x60)\x7d c \n\x60);\n"
      ∧ templateMarks "f(\x60\n  a  \n\n$\x7bg(\x60b\x60)\x7d c \n\x60);\n"
          = templateMarks "f(\x60\r\n  a  \r\n\r\n$\x7bg(\x60b\x60)\x7d c \r\n\x60);\r\n" := by
  have h : format "f(\x60\r\n  a  \r\n\r\n$\x7bg(\x60b\x60)\x7d c \r\n\x60);\r\n" {}
      = .ok "f(\x60\n  a  \n\n$\x7bg(\x60b\x60)\x7d c \n\x60);\n" := by rfl
  exact ⟨h, (templates_kept_iff h).2.2.mpr (by decide)⟩

/-- **A template loses the blanks at the end of the line on which it opens.** -/
theorem blanks_lost_where_template_opens :
    format "a = \x60x  \ny\x60;\n" {} = .ok "a = \x60x\ny\x60;\n"
      ∧ templateMarks "a = \x60x  \ny\x60;\n"
          = [.border '\x60', .text 'x', .text ' ', .text ' ', .lineEnd, .text 'y', .border '\x60']
      ∧ templateMarks "a = \x60x\ny\x60;\n"
          = [.border '\x60', .text 'x', .lineEnd, .text 'y', .border '\x60']
      ∧ templateMarks "a = \x60x\ny\x60;\n" ≠ templateMarks "a = \x60x  \ny\x60;\n" :=
  ⟨by rfl, by decide, by decide, by decide⟩

end DecoderForge.Layout
