import DecoderForge.Layout.Format
import DecoderForge.Proofs.Layout.Reading

/-!
# DecoderForge — which texts the formatter accepts

The formatter trims lines, counts them and indents them.  None of this decides whether it accepts a
text: it does exactly when the text, read character by character, ends in code with no bracket open.

## The architecture

* **`Reader.run`** — a text of several lines, read character by character.
* **`Scanner.scanLines_lines`** — reading a text is scanning its lines.
* **`formatLines_scanner`** — formatting lines is scanning them, whatever the indentation.
* **`format_isOk_iff`** — acceptance.
-/

namespace DecoderForge.Layout

namespace Reader

/-- A character of a text of several lines. -/
def next (r : Reader) (c : Char) : Except LineFault Reader :=
  if c == '\n' then r.endLine else r.step c

/-- A text of several lines. -/
def run (r : Reader) (text : List Char) : Except LineFault Reader := text.foldlM next r

theorem run_cons (r : Reader) (c : Char) (text : List Char) :
    r.run (c :: text) = (r.next c).bind fun r' => r'.run text := by
  unfold run
  rw [List.foldlM_cons]
  rfl

theorem run_append (r : Reader) (a b : List Char) :
    r.run (a ++ b) = (r.run a).bind fun r' => r'.run b := by
  unfold run
  rw [List.foldlM_append]
  rfl

/-- A text that goes on where another has been read. -/
theorem run_append_ok {r r' : Reader} {a : List Char} (h : r.run a = .ok r') (b : List Char) :
    r.run (a ++ b) = r'.run b := by
  rw [run_append, h]
  rfl

/-- A single line is read as such. -/
theorem run_line : ∀ {line : List Char} (r : Reader), '\n' ∉ line → r.run line = r.read line
  | [], _, _ => rfl
  | c :: line, r, h => by
      have hc : (c == '\n') = false := by
        have : c ≠ '\n' := fun heq => h (by simp [heq])
        simpa using this
      rw [run_cons, read_cons, next, hc, if_neg Bool.false_ne_true]
      cases r.step c with
      | error f => rfl
      | ok r' => exact run_line r' fun hmem => h (List.mem_cons_of_mem c hmem)

end Reader

namespace Scanner

open Reader

/-- A scanner between two lines is not inside a string. -/
def AtLineStart (s : Scanner) : Prop := s.region ≠ .single ∧ s.region ≠ .double

/-- The end of a line is the beginning of the next. -/
theorem endLine_atLineStart {s : Scanner} (h : s.AtLineStart) : (fresh s).endLine = .ok (fresh s) := by
  have hregion : (fresh s).scanner.region = s.region := rfl
  unfold endLine
  rw [hregion]
  cases hs : s.region with
  | single => exact absurd hs h.1
  | double => exact absurd hs h.2
  | code | template | block => rfl

/-- A line that has ended leaves nothing over, and no string. -/
theorem eq_fresh_of_endLine {r r' : Reader} (h : r.endLine = .ok r') :
    r' = fresh r.scanner ∧ r.scanner.AtLineStart := by
  unfold endLine at h
  unfold AtLineStart
  cases hs : r.scanner.region with
  | single | double => rw [hs] at h; exact absurd h (by simp)
  | code | template | block =>
      rw [hs] at h
      exact ⟨(Except.ok.inj h).symm, by simp, by simp⟩

/-- Lines in order. -/
def scanLines (s : Scanner) (lines : List (List Char)) : Except LineFault Scanner := lines.foldlM scan s

theorem scanLines_cons (s : Scanner) (line : List Char) (rest : List (List Char)) :
    s.scanLines (line :: rest) = (s.scan line).bind fun s' => s'.scanLines rest := by
  unfold scanLines
  rw [List.foldlM_cons]
  rfl

/-- A scanner behind a line is between two lines. -/
theorem atLineStart_of_scan {s s' : Scanner} {line : List Char} (h : s.scan line = .ok s') :
    s'.AtLineStart := by
  rw [scan_eq_read] at h
  cases hread : (fresh s).read line with
  | error f => rw [hread] at h; exact absurd h (by simp [Except.bind, Except.map])
  | ok r =>
      rw [hread] at h
      cases hend : r.endLine with
      | error f => simp only [Except.bind, hend] at h; exact absurd h (by simp [Except.map])
      | ok r' =>
          obtain ⟨rfl, hstart⟩ := eq_fresh_of_endLine hend
          simp only [Except.bind, hend, Except.map, Except.ok.injEq] at h
          rw [← h]
          exact hstart

/-- An empty line does nothing. -/
theorem scan_nil {s : Scanner} (h : s.AtLineStart) : s.scan [] = .ok s := by
  rw [scan_eq_read, read_nil]
  show ((fresh s).endLine).map Reader.scanner = _
  rw [endLine_atLineStart h]
  rfl

/-- A carriage return at the end of a line does not matter. -/
theorem scan_dropReturn (s : Scanner) (line : List Char) :
    s.scan (Text.dropReturn line) = s.scan line := by
  unfold Text.dropReturn
  split
  · next h =>
      have hlast : line.getLast? = some '\r' := by simpa using h
      obtain ⟨init, rfl⟩ := List.getLast?_eq_some_iff.mp hlast
      rw [List.dropLast_concat]
      refine (scan_append_blanks s init fun c hc => ?_).symm
      rw [List.mem_singleton.mp hc]
      rfl
  · rfl

/-- Lines are scanned alike with or without their carriage returns and an empty last one. -/
theorem scanLines_linesOfSegments : ∀ (segments : List (List Char)) {s : Scanner}, s.AtLineStart →
    s.scanLines (Text.linesOfSegments segments) = s.scanLines segments
  | [], _, _ => rfl
  | [last], s, h => by
      unfold Text.linesOfSegments
      cases last with
      | nil =>
          show Except.ok s = _
          rw [scanLines_cons, scan_nil h]
          rfl
      | cons c last => rfl
  | line :: second :: rest, s, h => by
      show s.scanLines (Text.dropReturn line :: Text.linesOfSegments (second :: rest)) = _
      rw [scanLines_cons, scanLines_cons, scan_dropReturn]
      cases hscan : s.scan line with
      | error f => rfl
      | ok s' => exact scanLines_linesOfSegments (second :: rest) (atLineStart_of_scan hscan)

/-- Segments without line ends are scanned as they are read with line ends in between. -/
theorem scanLines_segments : ∀ (segments : List (List Char)) (s : Scanner), segments ≠ [] →
    (∀ line ∈ segments, '\n' ∉ line) →
      s.scanLines segments
        = (((fresh s).run (Text.joinWith ['\n'] segments)).bind endLine).map Reader.scanner
  | [], _, h, _ => absurd rfl h
  | [line], s, _, h => by
      rw [scanLines_cons, scan_eq_read]
      show _ = (((fresh s).run line).bind endLine).map Reader.scanner
      rw [run_line _ (h line List.mem_cons_self)]
      cases ((fresh s).read line).bind endLine <;> rfl
  | line :: second :: rest, s, _, h => by
      have hline := h line List.mem_cons_self
      have hjoin : Text.joinWith ['\n'] (line :: second :: rest)
          = line ++ '\n' :: Text.joinWith ['\n'] (second :: rest) := by
        show line ++ ['\n'] ++ Text.joinWith ['\n'] (second :: rest) = _
        rw [List.append_assoc]
        rfl
      rw [scanLines_cons, scan_eq_read, hjoin, run_append, run_line _ hline]
      cases (fresh s).read line with
      | error f => rfl
      | ok r =>
          show ((r.endLine).map Reader.scanner).bind _ = ((r.run ('\n' :: _)).bind endLine).map _
          rw [run_cons]
          show _ = (((r.endLine).bind _).bind endLine).map _
          cases hend : r.endLine with
          | error f => rfl
          | ok r' =>
              obtain ⟨rfl, -⟩ := eq_fresh_of_endLine hend
              exact scanLines_segments (second :: rest) r.scanner (by simp)
                fun l hl => h l (List.mem_cons_of_mem line hl)

/-- **Scanning the lines of a text is reading the text.** -/
theorem scanLines_lines {s : Scanner} (h : s.AtLineStart) (text : List Char) :
    s.scanLines (Text.lines text) = (((fresh s).run text).bind endLine).map Reader.scanner := by
  unfold Text.lines
  rw [scanLines_linesOfSegments _ h, scanLines_segments _ _ (Text.splitAt_ne_nil '\n' text)
    Text.notMem_of_mem_splitAt, Text.joinWith_splitAt]

end Scanner

/-! ## The formatter -/

open Scanner

/-- Formatting a line is scanning it. -/
theorem formatLine_scanner (unit : List Char) (number : Nat) {p : Progress}
    (h : p.scanner.AtLineStart) (raw : List Char) (s : Scanner) :
    (∃ p', formatLine unit number p raw = .ok p' ∧ p'.scanner = s) ↔ p.scanner.scan raw = .ok s := by
  have hreturn : ∀ c, (c == '\r') = true → Text.isBlank c = true := by
    intro c hc
    rw [beq_iff_eq.mp hc]
    rfl
  rw [← scan_dropRightWhile p.scanner hreturn raw]
  unfold formatLine
  simp only
  generalize Text.dropRightWhile (· == '\r') raw = line
  by_cases htemplate : (p.scanner.region == .template) = true
  · rw [if_pos htemplate]
    cases p.scanner.scan line <;> simp
  · rw [if_neg htemplate, ← scan_trim p.scanner line]
    by_cases hempty : (Text.trim line).isEmpty = true
    · rw [if_pos hempty, List.isEmpty_iff.mp hempty, scan_nil h]
      simp
    · rw [if_neg hempty]
      cases p.scanner.scan (Text.trim line) <;> simp

/-- **Formatting lines is scanning them**, whatever the indentation and the numbers of the lines. -/
theorem formatLines_scanner (unit : List Char) : ∀ (lines : List (List Char)) (number : Nat)
    {p : Progress}, p.scanner.AtLineStart → ∀ s : Scanner,
      (∃ p', formatLines unit number p lines = .ok p' ∧ p'.scanner = s)
        ↔ p.scanner.scanLines lines = .ok s
  | [], _, p, _, s => by
      show (∃ p', Except.ok p = .ok p' ∧ p'.scanner = s) ↔ Except.ok p.scanner = .ok s
      simp
  | raw :: rest, number, p, h, s => by
      rw [scanLines_cons]
      have hline := formatLine_scanner unit number h raw
      show (∃ p', (formatLine unit number p raw).bind
        (fun p => formatLines unit (number + 1) p rest) = .ok p' ∧ p'.scanner = s) ↔ _
      cases hformat : formatLine unit number p raw with
      | error f =>
          cases hscan : p.scanner.scan raw with
          | error f' => simp [Except.bind]
          | ok s' =>
              obtain ⟨p', hp', -⟩ := (hline s').mpr hscan
              rw [hformat] at hp'
              exact absurd hp' (by simp)
      | ok p₁ =>
          have hscan := (hline p₁.scanner).mp ⟨p₁, hformat, rfl⟩
          rw [hscan]
          exact formatLines_scanner unit rest (number + 1) (atLineStart_of_scan hscan) s

/-- **The formatter accepts a text exactly when, read character by character, it ends in code with no
bracket open.**  The style plays no part. -/
theorem format_isOk_iff (source : String) (style : Style) :
    (format source style).isOk = true
      ↔ ∃ r, (Reader.fresh .initial).run source.toList = .ok r
        ∧ r.scanner.region = .code ∧ r.scanner.brackets = [] := by
  have hstart : Scanner.initial.AtLineStart := ⟨by decide, by decide⟩
  have hlines := scanLines_lines hstart source.toList
  -- in terms of the lines
  have hformat : (format source style).isOk = true
      ↔ ∃ s, Scanner.initial.scanLines (Text.lines source.toList) = .ok s
        ∧ s.region = .code ∧ s.brackets = [] := by
    unfold format formatChars
    have hscanner := formatLines_scanner style.indentUnit (Text.lines source.toList) 1
      (p := ⟨.initial, [], false⟩) hstart
    cases hp : formatLines style.indentUnit 1 ⟨.initial, [], false⟩ (Text.lines source.toList) with
    | error f =>
        constructor
        · intro h
          exact absurd h (by simp [bind, Except.bind, Except.map, Except.isOk, Except.toBool])
        · rintro ⟨s, hs, -⟩
          obtain ⟨p, hok, -⟩ := (hscanner s).mpr hs
          rw [hp] at hok
          exact absurd hok (by simp)
    | ok p =>
        have hs := (hscanner p.scanner).mp ⟨p, hp, rfl⟩
        rw [hs]
        simp only [Except.ok.injEq, exists_eq_left']
        by_cases hregion : p.scanner.region = .code
        · by_cases hbrackets : p.scanner.brackets = []
          · simp [bind, Except.bind, hregion, hbrackets, Except.map, Except.isOk, Except.toBool, pure,
              Except.pure]
          · simp [bind, Except.bind, hregion, hbrackets, Except.map, Except.isOk, Except.toBool, throw,
              throwThe, MonadExceptOf.throw]
        · simp [bind, Except.bind, hregion, Except.map, Except.isOk, Except.toBool, throw, throwThe,
            MonadExceptOf.throw]
  rw [hformat, hlines]
  cases (Reader.fresh .initial).run source.toList with
  | error f => simp [Except.bind, Except.map]
  | ok r =>
      show (∃ s, (r.endLine).map Reader.scanner = .ok s ∧ _) ↔ _
      simp only [Except.ok.injEq, exists_eq_left']
      constructor
      · rintro ⟨s, hs, hregion, hbrackets⟩
        cases hend : r.endLine with
        | error f => rw [hend] at hs; exact absurd hs (by simp [Except.map])
        | ok r' =>
            obtain ⟨rfl, -⟩ := eq_fresh_of_endLine hend
            rw [hend] at hs
            obtain rfl : r.scanner = s := Except.ok.inj hs
            exact ⟨hregion, hbrackets⟩
      · rintro ⟨hregion, hbrackets⟩
        refine ⟨r.scanner, ?_, hregion, hbrackets⟩
        unfold Reader.endLine
        rw [hregion]
        rfl

end DecoderForge.Layout
