import DecoderForge.Proofs.Layout.Acceptance

/-!
# DecoderForge — layout is canonical

Formatted text keeps nothing of the layout it had before.  A second run over the lines that a first one
wrote passes the same scanner states: a line of code was written trimmed behind blanks, a line of a
template as it was, and of a row of empty lines there is one.  So it writes what the style asks for and
nothing else.

## The architecture

* **`layLine_eq`** — a laid line is its text behind its indentation.
* **`Retraced`** — a run, the same run in another style, and a run over what the first has written.
* **`Adds.retraced`**, **`Leads.retraced`** — one line, and all lines.
* **`formatChars_formatChars`** — hence formatting twice is formatting once.
* **`format_canonical`** — formatted text has the layout of the last style, whatever it went through.
-/

namespace DecoderForge.Layout

open Scanner

/-! ## Laid lines -/

theorem forall_mem_repeatChars {unit : List Char} {p : Char → Prop} (h : ∀ c ∈ unit, p c) :
    ∀ n, ∀ c ∈ repeatChars unit n, p c
  | 0, c, hc => absurd hc List.not_mem_nil
  | n + 1, c, hc => by
      rcases List.mem_append.mp hc with hc | hc
      · exact h c hc
      · exact forall_mem_repeatChars h n c hc

/-- **A laid line is its text behind its indentation.** -/
theorem layLine_eq (style : Style) (s : Scanner) (trimmed : List Char) :
    ∃ front, layLine style.indentUnit s trimmed = front ++ trimmed ∧ Text.Indents front := by
  have hrepeat := forall_mem_repeatChars style.indents_indentUnit
  unfold layLine
  split
  · refine ⟨_, rfl, fun c hc => ?_⟩
    rcases List.mem_append.mp hc with hc | hc
    · exact hrepeat _ c hc
    · split at hc
      · exact Or.inl (List.mem_singleton.mp hc)
      · exact absurd hc List.not_mem_nil
  · exact ⟨_, rfl, fun c hc => hrepeat _ c hc⟩

/-! ## What one line writes -/

/-- The lines that a line of the source adds. -/
inductive Adds (unit : List Char) (p : Progress) (raw : List Char) : Progress → Prop where
  /-- In a template the line stays. -/
  | template {s : Scanner} (hregion : (p.scanner.region == .template) = true)
      (hscan : p.scanner.scan (Text.dropRightWhile (· == '\r') raw) = .ok s) :
      Adds unit p raw ⟨s, Text.dropRightWhile (· == '\r') raw :: p.lines, false⟩
  /-- The first of a row of empty lines. -/
  | empty (hregion : (p.scanner.region == .template) = false)
      (htrim : Text.trim (Text.dropRightWhile (· == '\r') raw) = [])
      (hfirst : (!p.blankRun && !p.lines.isEmpty) = true) :
      Adds unit p raw ⟨p.scanner, [] :: p.lines, true⟩
  /-- Another empty line. -/
  | skipped (hregion : (p.scanner.region == .template) = false)
      (htrim : Text.trim (Text.dropRightWhile (· == '\r') raw) = [])
      (hfirst : (!p.blankRun && !p.lines.isEmpty) = false) :
      Adds unit p raw ⟨p.scanner, p.lines, true⟩
  /-- A line with text is laid. -/
  | laid {s : Scanner} (hregion : (p.scanner.region == .template) = false)
      (htrim : Text.trim (Text.dropRightWhile (· == '\r') raw) ≠ [])
      (hscan : p.scanner.scan (Text.trim (Text.dropRightWhile (· == '\r') raw)) = .ok s) :
      Adds unit p raw
        ⟨s, layLine unit p.scanner (Text.trim (Text.dropRightWhile (· == '\r') raw)) :: p.lines, false⟩

/-- **What one line does.** -/
theorem formatLine_eq_ok_iff {unit : List Char} {number : Nat} {p p' : Progress} {raw : List Char} :
    formatLine unit number p raw = .ok p' ↔ Adds unit p raw p' := by
  unfold formatLine
  constructor
  · intro h
    simp only at h
    split at h
    · next hregion =>
        split at h
        · next s hscan =>
            obtain rfl := Except.ok.inj h
            exact .template hregion hscan
        · exact absurd h (by simp)
    · next hregion =>
        have hregion := Bool.eq_false_iff.mpr hregion
        split at h
        · next htrim =>
            have htrim := List.isEmpty_iff.mp htrim
            obtain rfl := Except.ok.inj h
            split
            · next hfirst => exact .empty hregion htrim hfirst
            · next hfirst => exact .skipped hregion htrim (Bool.eq_false_iff.mpr hfirst)
        · next htrim =>
            split at h
            · next s hscan =>
                obtain rfl := Except.ok.inj h
                exact .laid hregion (fun heq => htrim (List.isEmpty_iff.mpr heq)) hscan
            · exact absurd h (by simp)
  · intro h
    cases h with
    | template hregion hscan => simp only [hregion, hscan, if_true]
    | empty hregion htrim hfirst => simp [hregion, htrim, hfirst]
    | skipped hregion htrim hfirst => simp [hregion, htrim, hfirst]
    | laid hregion htrim hscan =>
        simp only [hregion, Bool.false_eq_true, if_false, List.isEmpty_iff, htrim, hscan]

/-! ## Lines in a row -/

/-- The lines of the source lead from one state of the formatter to another. -/
inductive Leads (unit : List Char) : Progress → List (List Char) → Progress → Prop where
  | nil (p : Progress) : Leads unit p [] p
  | cons {p p₁ p' : Progress} {raw : List Char} {rest : List (List Char)} (h : Adds unit p raw p₁)
      (h' : Leads unit p₁ rest p') : Leads unit p (raw :: rest) p'

/-- What the lines do does not depend on their numbers. -/
theorem formatLines_eq_ok_iff {unit : List Char} {lines : List (List Char)} {number : Nat}
    {p p' : Progress} : formatLines unit number p lines = .ok p' ↔ Leads unit p lines p' := by
  induction lines generalizing number p with
  | nil =>
      constructor
      · intro h
        obtain rfl := Except.ok.inj h
        exact .nil p
      · rintro ⟨⟩
        rfl
  | cons raw rest ih =>
      constructor
      · intro h
        cases hline : formatLine unit number p raw with
        | error f =>
            simp only [formatLines, hline, bind, Except.bind] at h
            exact absurd h (by simp)
        | ok p₁ =>
            simp only [formatLines, hline, bind, Except.bind] at h
            exact .cons (formatLine_eq_ok_iff.mp hline) (ih.mp h)
      · rintro (_ | ⟨hline, hrest⟩)
        simp only [formatLines, formatLine_eq_ok_iff.mpr hline, bind, Except.bind]
        exact ih.mpr hrest

namespace Leads

variable {unit : List Char} {p p' p'' : Progress} {a b : List (List Char)}

theorem single {raw : List Char} (h : Adds unit p raw p') : Leads unit p [raw] p' := .cons h (.nil p')

theorem append (h : Leads unit p a p') (h' : Leads unit p' b p'') : Leads unit p (a ++ b) p'' := by
  induction h with
  | nil => exact h'
  | cons hline _ ih => exact .cons hline (ih h')

theorem of_append (h : Leads unit p (a ++ b) p'') : ∃ p', Leads unit p a p' ∧ Leads unit p' b p'' := by
  induction a generalizing p with
  | nil => exact ⟨p, .nil p, h⟩
  | cons raw a ih =>
      obtain _ | ⟨hline, hrest⟩ := h
      obtain ⟨p', ha, hb⟩ := ih hrest
      exact ⟨p', .cons hline ha, hb⟩

/-- A scanner between two lines stays between two lines. -/
theorem atLineStart (h : Leads unit p a p') (hp : p.scanner.AtLineStart) :
    p'.scanner.AtLineStart := by
  induction h with
  | nil => exact hp
  | cons hline _ ih =>
      apply ih
      cases hline with
      | template _ hscan => exact atLineStart_of_scan hscan
      | laid _ _ hscan => exact atLineStart_of_scan hscan
      | empty => exact hp
      | skipped => exact hp

end Leads

/-! ## Runs that retrace a run -/

/-- A run `p`, the same run in another style `q`, and a run `r` in that style over the lines of the
first.  Between the last two only the memory of empty lines in front of the first text may differ. -/
structure Retraced (p q r : Progress) : Prop where
  scanner : q.scanner = p.scanner
  blankRun : q.blankRun = p.blankRun
  isEmpty : q.lines.isEmpty = p.lines.isEmpty
  again : r.scanner = p.scanner
  lines : r.lines = q.lines
  blankRunAgain : p.lines.isEmpty = false → r.blankRun = p.blankRun

/-- **One line of a run is retraced.** -/
theorem Adds.retraced {style : Style} {p p' q r : Progress} {raw : List Char}
    (h : Adds style.indentUnit p raw p') (unit : List Char) (hr : Retraced p q r) :
    ∃ q' new r', Adds unit q raw q' ∧ p'.lines = new ++ p.lines ∧ Leads unit r new.reverse r'
      ∧ Retraced p' q' r' := by
  obtain ⟨scanner, lines, blankRun⟩ := p
  obtain ⟨_, lines', _⟩ := q
  obtain ⟨_, _, blankRun'⟩ := r
  obtain ⟨hscanner, hrun, hempty, hagain, hlines, hblank⟩ := hr
  simp only at hscanner hrun hempty hagain hlines hblank
  obtain rfl := hscanner.symm
  obtain rfl := hrun.symm
  obtain rfl := hagain.symm
  obtain rfl := hlines.symm
  cases h with
  | template hregion hscan =>
      -- no carriage return is left to drop
      have hsame : Text.dropRightWhile (· == '\r') (Text.dropRightWhile (· == '\r') raw)
          = Text.dropRightWhile (· == '\r') raw :=
        Text.dropRightWhile_of_getLast? (Text.getLast?_dropRightWhile _ raw)
      have hagain := @Adds.template unit ⟨scanner, lines', blankRun'⟩ _ _ hregion
        (hsame.symm ▸ hscan)
      rw [hsame] at hagain
      exact ⟨_, [_], _, .template hregion hscan, rfl, .single hagain, rfl, rfl, rfl, rfl, rfl, fun _ => rfl⟩
  | empty hregion htrim hfirst =>
      have hnone : lines.isEmpty = false := by
        rw [Bool.and_eq_true] at hfirst
        simpa using hfirst.2
      have hagain := @Adds.empty unit ⟨scanner, lines', blankRun'⟩ [] hregion rfl
        (by rw [hblank hnone, hempty]; exact hfirst)
      exact ⟨_, [[]], _, .empty hregion htrim (by rw [hempty]; exact hfirst), rfl, .single hagain,
        rfl, rfl, rfl, rfl, rfl, fun _ => rfl⟩
  | skipped hregion htrim hfirst =>
      -- nothing is written, and nothing is read again
      refine ⟨_, [], _, .skipped hregion htrim (by rw [hempty]; exact hfirst), rfl, Leads.nil _,
        rfl, rfl, hempty, rfl, rfl, fun hsome => ?_⟩
      rw [Bool.and_eq_false_iff, Bool.not_eq_false', Bool.not_eq_false'] at hfirst
      rcases hfirst with hfirst | hnone
      · exact (hblank hsome).trans hfirst
      · exact absurd (hsome.symm.trans hnone) (by simp)
  | @laid s hregion htrim hscan =>
      obtain ⟨blanks, hlaid, hindents⟩ :=
        layLine_eq style scanner (Text.trim (Text.dropRightWhile (· == '\r') raw))
      generalize hraw : Text.dropRightWhile (· == '\r') raw = kept at htrim hscan hlaid ⊢
      -- the line that was written has the text of the line that was read
      have hkept : Text.dropRightWhile (· == '\r') (blanks ++ Text.trim kept)
          = blanks ++ Text.trim kept := by
        refine Text.dropRightWhile_of_getLast? fun c hc => ?_
        rw [List.getLast?_append_of_ne_nil _ htrim] at hc
        have hc := Text.getLast?_trim kept c hc
        rw [beq_eq_false_iff_ne]
        rintro rfl
        exact absurd hc (by decide)
      have hsame : Text.trim (Text.dropRightWhile (· == '\r') (blanks ++ Text.trim kept))
          = Text.trim kept := by
        rw [hkept, Text.trim_blanks_append hindents.isBlank]
      have hagain := @Adds.laid unit ⟨scanner, lines', blankRun'⟩ (blanks ++ Text.trim kept) s hregion
        (by rw [hsame]; exact htrim) (by rw [hsame]; exact hscan)
      have hstep := @Adds.laid unit ⟨scanner, lines', blankRun⟩ raw s hregion
        (by rw [hraw]; exact htrim) (by rw [hraw]; exact hscan)
      rw [hsame, ← hlaid] at hagain
      rw [hraw] at hstep
      exact ⟨_, [_], _, hstep, rfl, .single hagain, rfl, rfl, rfl, rfl, rfl, fun _ => rfl⟩

/-- **All lines of a run are retraced.** -/
theorem Leads.retraced {style : Style} {source : List (List Char)} {p p' q r : Progress}
    (h : Leads style.indentUnit p source p') (unit : List Char) (hr : Retraced p q r) :
    ∃ q' new r', Leads unit q source q' ∧ p'.lines = new ++ p.lines ∧ Leads unit r new.reverse r'
      ∧ Retraced p' q' r' := by
  induction h generalizing q r with
  | nil p => exact ⟨q, [], r, .nil q, rfl, .nil r, hr⟩
  | cons hline _ ih =>
      obtain ⟨q₁, new, r₁, hq, hnew, hlead, hr⟩ := hline.retraced unit hr
      obtain ⟨q', new', r', hq', hnew', hlead', hr⟩ := ih hr
      refine ⟨q', new' ++ new, r', .cons hq hq', ?_, ?_, hr⟩
      · rw [hnew', hnew, List.append_assoc]
      · rw [List.reverse_append]
        exact hlead.append hlead'

/-! ## What a run writes is lines -/

/-- **A line that is written is read back.** -/
theorem Adds.isLine {style : Style} {p p' : Progress} {raw : List Char}
    (h : Adds style.indentUnit p raw p') (hraw : '\n' ∉ raw) (hp : ∀ l ∈ p.lines, Text.IsLine l) :
    ∀ l ∈ p'.lines, Text.IsLine l := by
  have hkept : '\n' ∉ Text.dropRightWhile (· == '\r') raw :=
    fun hmem => hraw (Text.subset_of_dropRightWhile _ raw hmem)
  cases h with
  | template hregion hscan =>
      refine List.forall_mem_cons.mpr ⟨⟨hkept, fun hlast => ?_⟩, hp⟩
      exact absurd (Text.getLast?_dropRightWhile _ raw _ hlast) (by decide)
  | empty hregion htrim hfirst =>
      exact List.forall_mem_cons.mpr ⟨⟨List.not_mem_nil, by simp⟩, hp⟩
  | skipped hregion htrim hfirst => exact hp
  | laid hregion htrim hscan =>
      refine List.forall_mem_cons.mpr ⟨?_, hp⟩
      obtain ⟨blanks, hlaid, hindents⟩ :=
        layLine_eq style p.scanner (Text.trim (Text.dropRightWhile (· == '\r') raw))
      rw [hlaid]
      refine ⟨fun hmem => ?_, fun hlast => ?_⟩
      · rcases List.mem_append.mp hmem with hmem | hmem
        · exact hindents.single hmem
        · exact hkept (Text.subset_of_trim _ hmem)
      · rw [List.getLast?_append_of_ne_nil _ htrim] at hlast
        exact absurd (Text.getLast?_trim _ _ hlast) (by decide)

theorem Leads.isLine {style : Style} {source : List (List Char)} {p p' : Progress}
    (h : Leads style.indentUnit p source p') (hsource : ∀ raw ∈ source, '\n' ∉ raw)
    (hp : ∀ l ∈ p.lines, Text.IsLine l) : ∀ l ∈ p'.lines, Text.IsLine l := by
  induction h with
  | nil => exact hp
  | cons hline _ ih =>
      obtain ⟨hraw, hrest⟩ := List.forall_mem_cons.mp hsource
      exact ih hrest (hline.isLine hraw hp)

/-! ## The empty lines at the end -/

/-- An empty line in front of which a scanner was in code adds at most an empty line. -/
theorem Adds.of_nil {unit : List Char} {p p' : Progress} (h : Adds unit p [] p')
    (hstart : p.scanner.AtLineStart) (hregion : p'.scanner.region = .code) :
    p.scanner = p'.scanner ∧ p'.lines.dropWhile List.isEmpty = p.lines.dropWhile List.isEmpty := by
  cases h with
  | template htemplate hscan =>
      -- an empty line does not leave a template
      obtain rfl := Except.ok.inj ((scan_nil hstart).symm.trans hscan)
      rw [hregion] at htemplate
      exact absurd htemplate (by decide)
  | empty => exact ⟨rfl, rfl⟩
  | skipped => exact ⟨rfl, rfl⟩
  | laid htemplate htrim hscan => exact absurd rfl htrim

/-- Reading ends where it ended with the empty lines that are left out. -/
theorem Leads.dropWhile_isEmpty {unit : List Char} {p : Progress} (hp : p.scanner.AtLineStart)
    {lines : List (List Char)} {p' : Progress} (h : Leads unit p lines.reverse p')
    (hregion : p'.scanner.region = .code) :
    ∃ p'', Leads unit p (lines.dropWhile List.isEmpty).reverse p'' ∧ p''.scanner = p'.scanner
      ∧ p''.lines.dropWhile List.isEmpty = p'.lines.dropWhile List.isEmpty := by
  induction lines generalizing p' with
  | nil => exact ⟨p', h, rfl, rfl⟩
  | cons line rest ih =>
      cases line with
      | cons c line => exact ⟨p', h, rfl, rfl⟩
      | nil =>
          rw [List.reverse_cons] at h
          obtain ⟨p₁, hrest, hlast⟩ := h.of_append
          obtain _ | ⟨hlast, ⟨⟩⟩ := hlast
          obtain ⟨hscanner, hlines⟩ := hlast.of_nil (hrest.atLineStart hp) hregion
          obtain ⟨p₂, hlead, hscanner', hlines'⟩ := ih hrest (hscanner ▸ hregion)
          exact ⟨p₂, hlead, hscanner'.trans hscanner, hlines'.trans hlines.symm⟩

/-! ## Texts -/

/-- Before the first line. -/
def Progress.start : Progress := ⟨.initial, [], false⟩

/-- What a run has written. -/
def Progress.text (style : Style) (p : Progress) : List Char :=
  Text.joinWith style.endOfLine.chars (p.lines.dropWhile List.isEmpty).reverse
    ++ style.endOfLine.chars

/-- **A text is formatted** when its lines lead to code with no bracket open. -/
theorem formatChars_eq_ok_iff {source t : List Char} {style : Style} :
    formatChars source style = .ok t
      ↔ ∃ p, Leads style.indentUnit .start (Text.lines source) p ∧ p.scanner.region = .code
        ∧ p.scanner.brackets = [] ∧ p.text style = t := by
  have hlines (p : Progress) : formatLines style.indentUnit 1 .start (Text.lines source) = .ok p
      ↔ Leads style.indentUnit .start (Text.lines source) p := formatLines_eq_ok_iff
  unfold formatChars
  cases hp : formatLines style.indentUnit 1 ⟨.initial, [], false⟩ (Text.lines source) with
  | error f =>
      constructor
      · intro h
        exact absurd h (by simp [bind, Except.bind])
      · rintro ⟨p, hlead, -⟩
        exact absurd (hp.symm.trans ((hlines p).mpr hlead)) (by simp)
  | ok p =>
      have hunique : ∀ p', Leads style.indentUnit .start (Text.lines source) p' ↔ p' = p := fun p' => by
        rw [← hlines p']
        show formatLines style.indentUnit 1 ⟨.initial, [], false⟩ (Text.lines source) = _ ↔ _
        rw [hp, Except.ok.injEq, eq_comm]
      simp only [hunique, exists_eq_left]
      by_cases hregion : p.scanner.region = .code
      · by_cases hbrackets : p.scanner.brackets = []
        · simp [bind, Except.bind, hregion, hbrackets, pure, Except.pure, Progress.text]
        · simp [bind, Except.bind, hregion, hbrackets, throw, throwThe, MonadExceptOf.throw]
      · simp [bind, Except.bind, hregion, throw, throwThe, MonadExceptOf.throw]

/-- **What is written is read back**, if anything is. -/
theorem Leads.lines_text {style : Style} {source : List Char} {p : Progress}
    (h : Leads style.indentUnit .start (Text.lines source) p) (hsome : p.lines.dropWhile List.isEmpty ≠ []) :
    Text.lines (p.text style) = (p.lines.dropWhile List.isEmpty).reverse := by
  refine Text.lines_joinWith _ (by simpa using hsome) fun l hl => ?_
  exact h.isLine (fun raw hraw => Text.newline_notMem_of_mem_lines hraw)
    (fun l hl => absurd hl List.not_mem_nil) l
    (List.dropWhile_subset _ (List.mem_reverse.mp hl))

/-- Where nothing is written the text is a line end. -/
theorem Progress.text_of_nil {style : Style} {p : Progress} (h : p.lines.dropWhile List.isEmpty = []) :
    p.text style = style.endOfLine.chars := by
  unfold text
  rw [h]
  rfl

/-- A line end alone is an empty line. -/
theorem lines_endOfLine (e : EndOfLine) : Text.lines e.chars = [[]] := by cases e <;> rfl

/-- A text of empty lines only is written as one line end, which is read as an empty line. -/
theorem leads_endOfLine (unit : List Char) (e : EndOfLine) :
    Leads unit .start (Text.lines e.chars) ⟨.initial, [], true⟩ := by
  rw [lines_endOfLine]
  exact .single (.skipped (by decide) rfl (by decide))

/-- **Formatting twice is formatting once**, whatever the style of the first time. -/
theorem formatChars_formatChars {source t : List Char} {s₁ : Style}
    (h : formatChars source s₁ = .ok t) (s₂ : Style) :
    ∃ t', formatChars source s₂ = .ok t' ∧ formatChars t s₂ = .ok t' := by
  obtain ⟨p, hlead, hregion, hbrackets, rfl⟩ := formatChars_eq_ok_iff.mp h
  -- the run in the other style, and the run over what was written
  obtain ⟨q, new, r, hq, hnew, hr, hretraced⟩ :=
    hlead.retraced s₂.indentUnit ⟨rfl, rfl, rfl, rfl, rfl, fun _ => rfl⟩
  obtain rfl : p.lines = new := hnew.trans (List.append_nil new)
  have hstart : Progress.start.scanner.AtLineStart := ⟨by decide, by decide⟩
  obtain ⟨r', hr', hscanner, hdropped⟩ :=
    hr.dropWhile_isEmpty hstart (hretraced.again ▸ hregion)
  rw [hretraced.again] at hscanner
  rw [hretraced.lines] at hdropped
  have htext : r'.text s₂ = q.text s₂ := by
    unfold Progress.text
    rw [hdropped]
  refine ⟨q.text s₂, formatChars_eq_ok_iff.mpr ⟨q, hq, ?_, ?_, rfl⟩, formatChars_eq_ok_iff.mpr ?_⟩
  · rw [hretraced.scanner, hregion]
  · rw [hretraced.scanner, hbrackets]
  · by_cases hnone : p.lines.dropWhile List.isEmpty = []
    · rw [hnone] at hr'
      obtain _ | _ := hr'
      rw [Progress.text_of_nil hnone]
      exact ⟨_, leads_endOfLine _ _, rfl, rfl, htext⟩
    · rw [hlead.lines_text hnone]
      exact ⟨r', hr', hscanner ▸ hregion, hscanner ▸ hbrackets, htext⟩

/-- **Layout is canonical.**  Formatted text can be formatted in every style, which gives what the source
gives in that style.  So formatting is idempotent, and formatted text keeps nothing of the indentation
and the line ends it had before. -/
theorem format_canonical {source t : String} {s₁ : Style} (h : format source s₁ = .ok t) :
    (∀ s₂, (format t s₂).isOk = true ∧ format t s₂ = format source s₂)
      ∧ format t s₁ = .ok t
      ∧ ∀ s₁' t', format source s₁' = .ok t' → ∀ s₂, format t' s₂ = format t s₂ := by
  have hagain : ∀ {s₁ : Style} {t : String}, format source s₁ = .ok t → ∀ s₂ : Style,
      (format t s₂).isOk = true ∧ format t s₂ = format source s₂ := by
    intro s₁ t h s₂
    unfold format at h ⊢
    cases hchars : formatChars source.toList s₁ with
    | error f =>
        rw [hchars] at h
        exact absurd h (by simp [Except.map])
    | ok cs =>
        rw [hchars] at h
        obtain rfl := Except.ok.inj h
        obtain ⟨t', hsource, ht⟩ := formatChars_formatChars hchars s₂
        rw [String.toList_ofList, hsource, ht]
        exact ⟨rfl, rfl⟩
  refine ⟨hagain h, (hagain h s₁).2.trans h, fun s₁' t' h' s₂ => ?_⟩
  exact (hagain h' s₂).2.trans (hagain h s₂).2.symm

theorem format_canonical_comment :
    format "/*\r\n* a\r\n*/\r\nf(\r\n`\r\n  x`)\r\n\r\n\r\n" {}
        = .ok "/*\n * a\n */\nf(\n  `\n  x`)\n"
      ∧ format "/*\n * a\n */\nf(\n  `\n  x`)\n" { useTabs := true }
        = format "/*\r\n* a\r\n*/\r\nf(\r\n`\r\n  x`)\r\n\r\n\r\n" { useTabs := true } := by
  have h : format "/*\r\n* a\r\n*/\r\nf(\r\n`\r\n  x`)\r\n\r\n\r\n" {}
      = .ok "/*\n * a\n */\nf(\n  `\n  x`)\n" := by rfl
  exact ⟨h, ((format_canonical h).1 _).2⟩

end DecoderForge.Layout
