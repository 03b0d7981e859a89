import DecoderForge.Proofs.Layout.Templates

/-!
# DecoderForge — how regions and brackets nest

The scanner keeps two stacks, and a closing brace may end a bracket of one or code inside a template, which is on
both.  It looks at their tops only.  That is enough because the stacks grow together: code stands at the bottom and
on templates, each code inside a template has its bracket, and all else stands in code.

## The architecture

* **`Nested`** — regions and brackets that can stand open together.
* **`Scanner.move_nests`** — the step: a character keeps the nesting, one case for each kind of text.
* **`Scanner.scanLines_nests`** — the run: so does any number of lines.
* **`Nested.eq_nil`** — code with no bracket open is the code at the bottom.
* **`nested_of_scanLines`** — what stands open between two lines, and that nothing does behind a text that is accepted.
-/

namespace DecoderForge.Layout

/-- Regions and brackets that can stand open together, the innermost first. -/
inductive Nested : List Region → List Bracket → Prop where
  | bottom : Nested [.code] []
  | bracket {regions : List Region} {brackets : List Bracket} (c : Char) :
      Nested (.code :: regions) brackets → Nested (.code :: regions) (.opened c :: brackets)
  /-- A string, a comment or a template stands in code. -/
  | inside {regions : List Region} {brackets : List Bracket} {r : Region} (hr : r ≠ .code) :
      Nested (.code :: regions) brackets → Nested (r :: .code :: regions) brackets
  /-- Code inside a template stands on it, and has a bracket of its own. -/
  | expr {regions : List Region} {brackets : List Bracket} :
      Nested (.template :: regions) brackets → Nested (.code :: .template :: regions) (.templateExpr :: brackets)

namespace Nested

variable {regions : List Region} {brackets : List Bracket}

/-! ## What nesting says of the stacks -/

theorem ne_nil (h : Nested regions brackets) : regions ≠ [] := by
  cases h <;> exact List.cons_ne_nil _ _

theorem getLast?_eq (h : Nested regions brackets) : regions.getLast? = some .code := by
  induction h with
  | bottom => rfl
  | bracket _ _ ih => exact ih
  | inside _ _ ih => rw [List.getLast?_cons, ih]; rfl
  | expr _ ih => rw [List.getLast?_cons, ih]; rfl

/-- Each code but that at the bottom has its bracket. -/
theorem count_eq (h : Nested regions brackets) :
    brackets.count .templateExpr + 1 = regions.count .code := by
  induction h with
  | bottom => rfl
  | bracket c _ ih =>
    rw [List.count_cons_of_ne (by exact Bracket.noConfusion)]
    exact ih
  | inside hr _ ih =>
    rw [List.count_cons_of_ne hr]
    exact ih
  | expr _ ih =>
    rw [List.count_cons_self, List.count_cons_self]
    omega

/-- Only code and templates have something inside them. -/
theorem eq_code_or_template (h : Nested regions brackets) :
    ∀ r ∈ regions.tail, r = .code ∨ r = .template := by
  induction h with
  | bottom => exact nofun
  | bracket _ _ ih => exact ih
  | inside _ _ ih =>
    intro r hr
    obtain rfl | hr := List.mem_cons.mp hr
    · exact .inl rfl
    · exact ih r hr
  | expr _ ih =>
    intro r hr
    obtain rfl | hr := List.mem_cons.mp hr
    · exact .inr rfl
    · exact ih r hr

/-- Code that stands on something stands on a template. -/
theorem head?_below_code (h : Nested regions brackets) :
    ∀ above below : List Region, regions = above ++ .code :: below → below ≠ [] → below.head? = some .template := by
  induction h with
  | bottom =>
    intro above below heq hbelow
    -- there is one region, so nothing is above it or below it
    cases above with
    | nil => exact absurd (List.cons.inj heq).2.symm hbelow
    | cons r above => exact absurd (List.cons.inj heq).2.symm (by simp)
  | bracket _ _ ih => exact ih
  | inside hr _ ih =>
    intro above below heq hbelow
    cases above with
    | nil => exact absurd (List.cons.inj heq).1 hr
    | cons r above => exact ih above below (List.cons.inj heq).2 hbelow
  | expr _ ih =>
    intro above below heq hbelow
    cases above with
    | nil =>
      obtain rfl := (List.cons.inj heq).2
      rfl
    | cons r above => exact ih above below (List.cons.inj heq).2 hbelow

/-- **Code with no bracket open is the code at the bottom**: any other has a bracket of its own. -/
theorem eq_nil (h : Nested (.code :: regions) []) : regions = [] := by
  cases h with
  | bottom => rfl
  | inside hr _ => exact absurd rfl hr

/-- Behind the end of code inside a template stands that template. -/
theorem of_expr (h : Nested (.code :: regions) (.templateExpr :: brackets)) : Nested regions brackets := by
  cases h with
  | inside hr _ => exact absurd rfl hr
  | expr h => exact h

/-- Behind the end of a bracket stands the same code. -/
theorem of_bracket {c : Char} (h : Nested (.code :: regions) (.opened c :: brackets)) :
    Nested (.code :: regions) brackets := by
  cases h with
  | bracket _ h => exact h
  | inside hr _ => exact absurd rfl hr

/-- Behind the end of a string, a comment or a template stands code. -/
theorem of_inside {r : Region} (h : Nested (r :: regions) brackets) (hr : r ≠ .code) : Nested regions brackets := by
  cases h with
  | bottom | bracket | expr => exact absurd rfl hr
  | inside _ h => exact h

end Nested

namespace Scanner

/-- The regions and brackets of a scanner can stand open together. -/
def Nests (s : Scanner) : Prop := Nested s.regions s.brackets

/-- Wherever a move leads, regions and brackets can stand open together. -/
def Move.Nests : Move → Prop
  | .fail _ | .endLine => True
  | .one s | .two s => s.Nests

theorem nests_initial : initial.Nests := .bottom

/-! ## One character -/

/-- A character of code: it opens something, or closes what stands innermost on its stack. -/
theorem moveCode_nests {regions : List Region} {brackets : List Bracket} (h : Nested (.code :: regions) brackets)
    (c : Char) (next : Option Char) : (moveCode ⟨.code :: regions, brackets⟩ c next).Nests := by
  have henter : ∀ r : Region, r ≠ .code → (enter ⟨.code :: regions, brackets⟩ r).Nests := fun r hr => .inside hr h
  unfold moveCode
  split
  · exact trivial
  split
  · exact henter .block (by decide)
  split
  · exact henter .single (by decide)
  split
  · exact henter .double (by decide)
  split
  · exact henter .template (by decide)
  split
  · exact .bracket c h
  split
  · -- a closing bracket: the innermost bracket decides what it means
    cases brackets with
    | nil => exact trivial
    | cons b rest =>
      cases b with
      | templateExpr =>
        dsimp only
        split
        · exact h.of_expr
        · exact trivial
      | opened o =>
        dsimp only
        split
        · exact h.of_bracket
        · exact trivial
  · exact h

/-- A character of a string. -/
theorem moveString_nests {r : Region} {regions : List Region} {brackets : List Bracket}
    (h : Nested (r :: regions) brackets) (hr : r ≠ .code) (quote c : Char) :
    (moveString ⟨r :: regions, brackets⟩ quote c).Nests := by
  unfold moveString
  split
  · exact h
  split
  · exact h.of_inside hr
  · exact h

/-- A character of a template, which may begin code inside it. -/
theorem moveTemplate_nests {regions : List Region} {brackets : List Bracket} (h : Nested (.template :: regions) brackets)
    (c : Char) (next : Option Char) : (moveTemplate ⟨.template :: regions, brackets⟩ c next).Nests := by
  unfold moveTemplate
  split
  · exact h
  split
  · exact h.of_inside (by decide)
  split
  · exact .expr h
  · exact h

/-- A character of a block comment. -/
theorem moveBlock_nests {regions : List Region} {brackets : List Bracket} (h : Nested (.block :: regions) brackets)
    (c : Char) (next : Option Char) : (moveBlock ⟨.block :: regions, brackets⟩ c next).Nests := by
  unfold moveBlock
  split
  · exact h.of_inside (by decide)
  · exact h

/-- **The step**: a character keeps the nesting, whatever kind of text it stands in. -/
theorem move_nests {s : Scanner} (h : s.Nests) (c : Char) (next : Option Char) : (s.move c next).Nests := by
  obtain ⟨regions, brackets⟩ := s
  cases regions with
  | nil => exact absurd rfl (Nested.ne_nil h)
  | cons r regions =>
    cases r with
    | code => exact moveCode_nests h c next
    | single => exact moveString_nests h (by decide) '\'' c
    | double => exact moveString_nests h (by decide) '"' c
    | template => exact moveTemplate_nests h c next
    | block => exact moveBlock_nests h c next

/-! ## Lines -/

/-- The characters of a line. -/
theorem advance_nests : ∀ {line : List Char} {s s' : Scanner}, s.Nests → s.advance line = .ok s' → s'.Nests
  | [], s, s', h, hadvance => Except.ok.inj hadvance ▸ h
  | [c], s, s', h, hadvance => by
      have hmove := move_nests h c none
      unfold advance at hadvance
      cases hm : s.move c none with
      | fail f => rw [hm] at hadvance; cases hadvance
      | endLine => rw [hm] at hadvance; exact Except.ok.inj hadvance ▸ h
      | one s₁ | two s₁ =>
        rw [hm] at hadvance hmove
        exact Except.ok.inj hadvance ▸ hmove
  | c :: d :: rest, s, s', h, hadvance => by
      have hmove := move_nests h c (some d)
      unfold advance at hadvance
      cases hm : s.move c (some d) with
      | fail f => rw [hm] at hadvance; cases hadvance
      | endLine => rw [hm] at hadvance; exact Except.ok.inj hadvance ▸ h
      | one s₁ =>
        rw [hm] at hadvance hmove
        exact advance_nests hmove hadvance
      | two s₁ =>
        rw [hm] at hadvance hmove
        exact advance_nests hmove hadvance

/-- A line that fits. -/
theorem scan_nests {s s' : Scanner} {line : List Char} (h : s.Nests) (hscan : s.scan line = .ok s') : s'.Nests := by
  unfold scan at hscan
  split at hscan
  · cases hscan
  · next hadvance =>
    split at hscan
    · cases hscan
    · cases hscan
    · exact Except.ok.inj hscan ▸ advance_nests h hadvance

/-- **The run**: lines that fit keep the nesting, and no string goes on behind them. -/
theorem scanLines_nests : ∀ {lines : List (List Char)} {s s' : Scanner}, s.Nests → s.AtLineStart →
    s.scanLines lines = .ok s' → s'.Nests ∧ s'.AtLineStart
  | [], _, _, h, hstart, hscan => Except.ok.inj hscan ▸ ⟨h, hstart⟩
  | line :: rest, s, s', h, hstart, hscan => by
      rw [scanLines_cons] at hscan
      obtain ⟨s₁, hline, hrest⟩ := bind_eq_ok (x := s.scan line) hscan
      exact scanLines_nests (scan_nests h hline) (atLineStart_of_scan hline) hrest

/-- Between two lines no string is open, on top or below. -/
theorem notMem_of_atLineStart {s : Scanner} (h : s.Nests) (hstart : s.AtLineStart) :
    .single ∉ s.regions ∧ .double ∉ s.regions := by
  obtain ⟨regions, brackets⟩ := s
  cases regions with
  | nil => exact absurd rfl (Nested.ne_nil h)
  | cons r regions =>
    have htail := Nested.eq_code_or_template h
    constructor
    · intro hmem
      obtain rfl | hmem := List.mem_cons.mp hmem
      · exact hstart.1 rfl
      · exact absurd (htail _ hmem) (by decide)
    · intro hmem
      obtain rfl | hmem := List.mem_cons.mp hmem
      · exact hstart.2 rfl
      · exact absurd (htail _ hmem) (by decide)

/-- A scanner in code with no bracket open is where it began. -/
theorem eq_initial {s : Scanner} (h : s.Nests) (hregion : s.region = .code) (hbrackets : s.brackets = []) :
    s = initial := by
  obtain ⟨regions, brackets⟩ := s
  obtain rfl : brackets = [] := hbrackets
  cases regions with
  | nil => exact absurd rfl (Nested.ne_nil h)
  | cons r regions =>
    obtain rfl : r = .code := hregion
    obtain rfl := Nested.eq_nil h
    rfl

end Scanner

open Scanner

/-! ## Accepted texts -/

theorem atLineStart_initial : Scanner.initial.AtLineStart := ⟨by decide, by decide⟩

/-- **The formatter's own scanner ends where it began**: the formatter looks for code with no bracket open, which by
the nesting leaves no region open either. -/
theorem exists_leads_of_format {source t : String} {style : Style} (h : format source style = .ok t) :
    ∃ p, Leads style.indentUnit .start (Text.lines source.toList) p ∧ p.scanner = .initial := by
  obtain ⟨cs, hcs, rfl⟩ := map_eq_ok h
  obtain ⟨p, hlead, hregion, hbrackets, -⟩ := formatChars_eq_ok_iff.mp hcs
  have hscan := hlead.scanLines atLineStart_initial
  exact ⟨p, hlead, eq_initial (scanLines_nests nests_initial atLineStart_initial hscan).1 hregion hbrackets⟩

/-- Lines behind which the scanner is where it began are accepted. -/
theorem exists_format_of_scanLines {source : String} (style : Style)
    (h : Scanner.initial.scanLines (Text.lines source.toList) = .ok .initial) :
    ∃ t, format source style = .ok t := by
  obtain ⟨p, hlines, hscanner⟩ :=
    (formatLines_scanner style.indentUnit _ 1 (p := .start) atLineStart_initial .initial).mpr h
  have hformat := formatChars_eq_ok_iff.mpr
    ⟨p, formatLines_eq_ok_iff.mp hlines, congrArg Scanner.region hscanner, congrArg Scanner.brackets hscanner, rfl⟩
  exact ⟨_, congrArg (Except.map String.ofList) hformat⟩

/-- **What stands open between two lines, and behind an accepted text.**  As long as lines fit, code stands at the
bottom, no string is open, each code inside a template has its bracket, and it stands on its template.  So a text
is accepted exactly when all that it opens is closed again: the stacks are then those before the first line, in the
formatter that trims its lines as in a scanner that reads them as they are. -/
theorem nested_of_scanLines :
    (∀ (lines : List (List Char)) (s : Scanner), Scanner.initial.scanLines lines = .ok s →
      s.regions.getLast? = some .code
        ∧ .single ∉ s.regions ∧ .double ∉ s.regions
        ∧ s.brackets.count .templateExpr + 1 = s.regions.count .code
        ∧ ∀ above below : List Region, s.regions = above ++ .code :: below → below ≠ [] →
          below.head? = some .template)
    ∧ ∀ (source : String) (style : Style),
      (∀ t, format source style = .ok t → ∃ p,
        formatLines style.indentUnit 1 ⟨.initial, [], false⟩ (Text.lines source.toList) = .ok p
          ∧ p.scanner.regions = [.code] ∧ p.scanner.brackets = [])
      ∧ ((∃ t, format source style = .ok t)
        ↔ Scanner.initial.scanLines (Text.lines source.toList) = .ok ⟨[.code], []⟩) := by
  refine ⟨fun lines s hscan => ?_, fun source style => ⟨fun t ht => ?_, fun ⟨t, ht⟩ => ?_, fun hscan => ?_⟩⟩
  · obtain ⟨hnests, hstart⟩ := scanLines_nests nests_initial atLineStart_initial hscan
    obtain ⟨hsingle, hdouble⟩ := notMem_of_atLineStart hnests hstart
    exact ⟨hnests.getLast?_eq, hsingle, hdouble, hnests.count_eq, hnests.head?_below_code⟩
  · obtain ⟨p, hlead, hscanner⟩ := exists_leads_of_format ht
    exact ⟨p, formatLines_eq_ok_iff.mpr hlead, congrArg Scanner.regions hscanner, congrArg Scanner.brackets hscanner⟩
  · obtain ⟨p, hlead, hscanner⟩ := exists_leads_of_format ht
    exact (hlead.scanLines atLineStart_initial).trans (congrArg Except.ok hscanner)
  · exact exists_format_of_scanLines style hscan

/-- Two lines that leave a template open inside code of another, and a third that closes both. -/
theorem nested_of_scanLines_templates :
    (∃ s, Scanner.initial.scanLines ["f(\x60a$\x7b\x7bb: '\x7d', c: [".toList, "g(\x60$".toList] = .ok s
      ∧ s.regions = [.template, .code, .template, .code]
      ∧ s.brackets.count .templateExpr + 1 = s.regions.count .code)
    ∧ ∃ p, formatLines (Style.indentUnit {}) 1 ⟨.initial, [], false⟩
        (Text.lines "f(\x60a$\x7b\x7bb: '\x7d', c: [\ng(\x60$\n\x60)]\x7d\x7d\x60)".toList) = .ok p
      ∧ p.scanner.regions = [.code] ∧ p.scanner.brackets = [] := by
  have hlines : Scanner.initial.scanLines ["f(\x60a$\x7b\x7bb: '\x7d', c: [".toList, "g(\x60$".toList]
      = .ok ⟨[.template, .code, .template, .code],
        [.opened '(', .opened '[', .opened '{', .templateExpr, .opened '(']⟩ := by rfl
  have htext : format "f(\x60a$\x7b\x7bb: '\x7d', c: [\ng(\x60$\n\x60)]\x7d\x7d\x60)" {}
      = .ok "f(\x60a$\x7b\x7bb: '\x7d', c: [\n      g(\x60$\n\x60)]\x7d\x7d\x60)\n" := by rfl
  obtain ⟨-, -, -, hcount, -⟩ := nested_of_scanLines.1 _ _ hlines
  exact ⟨⟨_, hlines, rfl, hcount⟩, (nested_of_scanLines.2 _ _).1 _ htext⟩

end DecoderForge.Layout
