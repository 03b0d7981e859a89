import DecoderForge.Proofs.Types.Brackets
import DecoderForge.Proofs.Types.Made

/-!
# DecoderForge — what the reader for operators sees

Whether a type needs parentheses is read off its text, where quotes and brackets count wherever they stand.
Names in quotes and constants leave the reader where it was.  A comment does if its description does by itself:
blanks, line ends and the stars in front of lines mean nothing to it.

## The architecture

* **`OperatorScan.run`**, **`Neutral`** — where the reader stands behind a text, and texts that leave it there.
* **`neutral_docText`** — the comment of a neutral description is neutral.
* **`neutral_quoteChars`**, **`composes_neutral`** — so are literals and every text put together from neutral ones.
* **`hasTopLevelOperator_joinWith`** — an operator behind a neutral text is found.
-/

namespace DecoderForge.Types

open Layout (isPlain isInner quoteOf)

namespace OperatorScan

/-! ## Where the reader stands -/

/-- Where a reader stands behind a text. -/
def run (s : OperatorScan) (text : List Char) : OperatorScan := text.foldl step s

theorem run_append (s : OperatorScan) (a b : List Char) : s.run (a ++ b) = (s.run a).run b := List.foldl_append

theorem run_cons (s : OperatorScan) (c : Char) (text : List Char) : s.run (c :: text) = (s.step c).run text := rfl

/-- A reader with more brackets open. -/
def deeper (s : OperatorScan) (n : Int) : OperatorScan := { s with depth := n + s.depth }

/-- Brackets that were open before do not matter. -/
theorem step_deeper (s : OperatorScan) (n : Int) (c : Char) : (s.deeper n).step c = (s.step c).deeper n := by
  obtain ⟨depth, quote, escaped⟩ := s
  cases quote with
  | some q =>
    by_cases hback : (c == '\\') = true <;> by_cases hquote : (c == q) = true <;> cases escaped <;>
      simp only [step, deeper, stepString, hback, hquote, if_true, if_false, Bool.false_eq_true]
  | none =>
    simp only [step, deeper, stepOutside]
    repeat' split
    all_goals simp [Int.add_assoc, Int.add_sub_assoc]

theorem run_deeper (n : Int) : ∀ (text : List Char) (s : OperatorScan), (s.deeper n).run text = (s.run text).deeper n
  | [], _ => rfl
  | c :: text, s => by rw [run_cons, run_cons, step_deeper, run_deeper n text]

/-! ## Characters that mean nothing -/

/-- Characters that mean something to the reader. -/
def markers : List Char := ['\'', '"', '\x60', '(', '{', '[', ')', '}', ']', '\\']

/-- Characters that mean nothing to the reader, be it in a string or not. -/
def isInert (c : Char) : Bool := !markers.contains c

theorem inert_of {p : Char → Bool} (hp : ∀ d ∈ markers, p d = false) {c : Char} (h : p c = true) :
    isInert c = true := by
  unfold isInert
  cases hc : markers.contains c with
  | false => rfl
  | true =>
      have hno := hp c (List.contains_iff_mem.mp hc)
      rw [h] at hno
      exact absurd hno (by decide)

/-- A reader as it comes about: a string is open behind a quote only, and a backslash counts in strings. -/
structure Sound (s : OperatorScan) : Prop where
  quote : ∀ q, s.quote = some q → q ∈ ['\'', '"', '\x60']
  escaped : s.quote = none → s.escaped = false

theorem sound_start (depth : Int) : Sound { depth } := ⟨nofun, fun _ => rfl⟩

theorem Sound.step {s : OperatorScan} (h : s.Sound) (c : Char) : (s.step c).Sound := by
  obtain ⟨depth, quote, escaped⟩ := s
  cases quote with
  | some q =>
    have hq := h.quote q rfl
    simp only [OperatorScan.step, stepString]
    split
    · exact ⟨h.quote, nofun⟩
    · rename_i hescaped
      split
      · exact ⟨h.quote, nofun⟩
      · split
        · exact ⟨nofun, fun _ => by simpa using hescaped⟩
        · exact h
  | none =>
    simp only [OperatorScan.step, stepOutside]
    split
    · rename_i hc
      refine ⟨fun q hq => ?_, nofun⟩
      obtain rfl := Option.some.inj hq
      simpa [or_assoc] using hc
    · split
      · exact ⟨nofun, h.escaped⟩
      · split
        · exact ⟨nofun, h.escaped⟩
        · exact h

theorem Sound.run : ∀ {text : List Char} {s : OperatorScan}, s.Sound → (s.run text).Sound
  | [], _, h => h
  | c :: text, _, h => @Sound.run text _ (h.step c)

/-- The reader when no backslash counts any more. -/
def settled (s : OperatorScan) : OperatorScan := { s with escaped := false }

theorem Sound.settled {s : OperatorScan} (h : s.Sound) : s.settled.Sound := ⟨h.quote, fun _ => rfl⟩

theorem settled_of_quote {s : OperatorScan} (h : s.Sound) (hquote : s.quote = none) : s.settled = s := by
  unfold OperatorScan.settled
  rw [← h.escaped hquote]

/-- **A character that means nothing** ends an escape at most. -/
theorem Sound.step_inert {s : OperatorScan} (h : s.Sound) {c : Char} (hc : isInert c = true) :
    s.step c = s.settled := by
  have hmarkers : c ∉ markers := by simpa [isInert] using hc
  obtain ⟨depth, quote, escaped⟩ := s
  cases quote with
  | none =>
    obtain rfl : escaped = false := h.escaped rfl
    simp only [markers, List.mem_cons, List.not_mem_nil, or_false, not_or] at hmarkers
    simp [OperatorScan.step, stepOutside, OperatorScan.settled, hmarkers]
  | some q =>
    have hq : c ≠ q := by
      rintro rfl
      exact hmarkers (List.mem_append_left ['(', '{', '[', ')', '}', ']', '\\'] (h.quote c rfl))
    have hback : c ≠ '\\' := by
      rintro rfl
      exact hmarkers (by decide)
    cases escaped <;> simp [OperatorScan.step, stepString, OperatorScan.settled, hq, hback]

theorem Sound.run_inert {s : OperatorScan} (h : s.Sound) : ∀ {text : List Char}, (∀ c ∈ text, isInert c = true) →
    (s.run text).settled = s.settled
  | [], _ => rfl
  | c :: text, htext => by
      obtain ⟨hc, htext⟩ := List.forall_mem_cons.mp htext
      rw [run_cons, h.step_inert hc]
      exact h.settled.run_inert htext

/-! ## Lines -/

/-- Where the reader stands behind a line and its end. -/
def behind (s : OperatorScan) (line : List Char) : OperatorScan := (s.run line).settled

/-- Where the reader stands behind lines and their ends. -/
def behindLines (s : OperatorScan) (lines : List (List Char)) : OperatorScan := lines.foldl behind s

/-- A reader at the beginning of a line. -/
structure Ready (s : OperatorScan) : Prop where
  sound : s.Sound
  settled : s.settled = s

theorem Sound.ready_behind {s : OperatorScan} (h : s.Sound) (line : List Char) : (s.behind line).Ready :=
  ⟨h.run.settled, rfl⟩

theorem Ready.run_inert {s : OperatorScan} (h : s.Ready) {text : List Char} (htext : ∀ c ∈ text, isInert c = true) :
    s.run text = s := by
  induction text with
  | nil => rfl
  | cons c text ih =>
    obtain ⟨hc, htext⟩ := List.forall_mem_cons.mp htext
    rw [run_cons, h.sound.step_inert hc, h.settled]
    exact ih htext

theorem inert_of_isBlank {c : Char} (h : Text.isBlank c = true) : isInert c = true := inert_of (by decide) h

/-- Whatever is dropped from the end of a line means nothing. -/
theorem Sound.behind_append {s : OperatorScan} (h : s.Sound) (line : List Char) {blanks : List Char}
    (hblanks : ∀ c ∈ blanks, isInert c = true) : s.behind (line ++ blanks) = s.behind line := by
  unfold behind
  rw [run_append]
  exact h.run.run_inert hblanks

theorem Sound.behind_dropRightWhile {s : OperatorScan} (h : s.Sound) (line : List Char) :
    s.behind (Text.dropRightWhile Text.isBlank line) = s.behind line := by
  obtain ⟨blanks, heq, hblanks⟩ := Text.dropRightWhile_append Text.isBlank line
  rw [← h.behind_append (Text.dropRightWhile Text.isBlank line) fun c hc => inert_of_isBlank (hblanks c hc), heq]

theorem Sound.behind_dropReturn {s : OperatorScan} (h : s.Sound) (line : List Char) :
    s.behind (Text.dropReturn line) = s.behind line := by
  unfold Text.dropReturn
  split
  · rename_i hlast
    obtain ⟨init, rfl⟩ := List.getLast?_eq_some_iff.mp (beq_iff_eq.mp hlast)
    rw [List.dropLast_concat, h.behind_append init (by decide)]
  · rfl

/-- A line feed is read like the end of a line. -/
theorem Ready.behind_joinWith : ∀ (lines : List (List Char)) {s : OperatorScan}, s.Ready →
    s.behind (Text.joinWith ['\n'] lines) = s.behindLines lines
  | [], _, h => h.settled
  | [_], _, _ => rfl
  | line :: next :: rest, s, h => by
      have htext : Text.joinWith ['\n'] (line :: next :: rest)
          = line ++ '\n' :: Text.joinWith ['\n'] (next :: rest) := by
        simp [Text.joinWith]
      have hready := h.sound.ready_behind line
      have hfeed : s.run (line ++ ['\n']) = s.behind line := by
        rw [run_append]
        exact h.sound.run.step_inert (by decide)
      have ih := hready.behind_joinWith (next :: rest)
      rw [htext, behind, ← List.singleton_append, ← List.append_assoc, run_append, hfeed]
      exact ih

/-- The lines of segments are read like the segments. -/
theorem Ready.behindLines_linesOfSegments : ∀ (segments : List (List Char)) {s : OperatorScan}, s.Ready →
    s.behindLines (Text.linesOfSegments segments) = s.behindLines segments
  | [], _, _ => rfl
  | [last], _, h => by
      unfold Text.linesOfSegments
      split
      · rename_i hempty
        obtain rfl := List.isEmpty_iff.mp hempty
        exact h.settled.symm
      · rfl
  | line :: next :: rest, s, h => by
      have ih := (h.sound.ready_behind line).behindLines_linesOfSegments (next :: rest)
      have hlines : Text.linesOfSegments (line :: next :: rest)
          = Text.dropReturn line :: Text.linesOfSegments (next :: rest) := rfl
      rw [hlines, behindLines, List.foldl_cons, h.sound.behind_dropReturn]
      exact ih

theorem Ready.behindLines_lines {s : OperatorScan} (h : s.Ready) (text : List Char) :
    s.behindLines (Text.lines text) = s.behind text := by
  rw [Text.lines, h.behindLines_linesOfSegments, ← h.behind_joinWith, Text.joinWith_splitAt]

/-- Lines that are read like others, one by one. -/
theorem Ready.behindLines_map {f : List Char → List Char}
    (hf : ∀ {s : OperatorScan}, s.Ready → ∀ line, s.behind (f line) = s.behind line) :
    ∀ (lines : List (List Char)) {s : OperatorScan}, s.Ready → s.behindLines (lines.map f) = s.behindLines lines
  | [], _, _ => rfl
  | line :: rest, s, h => by
      have ih := behindLines_map hf rest (h.sound.ready_behind line)
      rw [List.map_cons, behindLines, List.foldl_cons, hf h]
      exact ih

/-! ## Comments and indentation -/

/-- A backslash is an escape at most of the slash behind it. -/
theorem Sound.run_backslash {s : OperatorScan} (h : s.Sound) : s.settled.run ['\\', '/'] = s.settled := by
  obtain ⟨depth, quote, escaped⟩ := s
  cases quote with
  | none => rfl
  | some q => rfl

/-- A text in which no comment ends is read like the text. -/
theorem Sound.run_openComment : ∀ (text : List Char) {s : OperatorScan}, s.Sound →
    s.run (openComment text) = s.run text
  | [], _, _ => by simp [openComment, Text.replaceAll]
  | c :: text, s, h => by
      unfold openComment
      rcases Text.replaceAll_pair_cons '*' '/' ['*', '\\', '/'] c text with ⟨text', rfl, rfl, heq⟩ | ⟨-, heq⟩
      · have hstar : s.step '*' = s.settled := h.step_inert (by decide)
        have hslash : s.settled.step '/' = s.settled := h.settled.step_inert (by decide)
        have hopened : s.run ['*', '\\', '/'] = s.settled := by
          rw [run_cons, hstar]
          exact h.run_backslash
        rw [heq, run_append, hopened, run_cons, run_cons, hstar, hslash]
        exact h.settled.run_openComment text'
      · rw [heq, run_cons, run_cons]
        exact (h.step c).run_openComment text
termination_by text => text.length

/-- A line of a comment is read like the line. -/
theorem Ready.run_docLine {s : OperatorScan} (h : s.Ready) (line : List Char) :
    s.run (docLine line) = s.behind line := by
  have hend : ∀ {t : OperatorScan}, t.Sound → t.run ['\n'] = t.settled := fun ht => ht.step_inert (by decide)
  unfold docLine
  split
  · rename_i hempty
    obtain rfl := List.isEmpty_iff.mp hempty
    rw [run_append, h.run_inert (by decide), hend h.sound]
    rfl
  · rw [run_append, run_append, h.run_inert (by decide), hend h.sound.run]
    rfl

theorem Ready.run_docLines : ∀ (lines : List (List Char)) {s : OperatorScan}, s.Ready →
    s.run (lines.flatMap docLine) = s.behindLines lines
  | [], _, _ => rfl
  | line :: rest, s, h => by
      rw [List.flatMap_cons, run_append, h.run_docLine]
      exact (h.sound.ready_behind line).run_docLines rest

theorem Ready.ready_behindLines :
    ∀ (lines : List (List Char)) {s : OperatorScan}, s.Ready → (s.behindLines lines).Ready
  | [], _, h => h
  | line :: rest, _, h => ready_behindLines rest (h.sound.ready_behind line)

theorem Ready.run_docText {s : OperatorScan} (h : s.Ready) (lines : List (List Char)) :
    s.run (docText (some lines)) = s.behindLines lines := by
  have htext : docText (some lines) = "/**\n".toList ++ lines.flatMap docLine ++ " */\n".toList := rfl
  rw [htext, run_append, run_append, h.run_inert (by decide), h.run_docLines,
    (h.ready_behindLines lines).run_inert (by decide)]

/-- **The comment of a description** is read like the description. -/
theorem Ready.run_docText_docLines? {s : OperatorScan} (h : s.Ready) {schema : Json}
    (hdescription : ∀ d, schema.getString? "description" = some d → s.behind d.toList = s) :
    s.run (docText (docLines? schema)) = s := by
  unfold docLines?
  split
  · rfl
  · rename_i description hd
    dsimp only
    split
    · rfl
    · -- blanks around the whole, then those behind each line
      have hblanks : ∀ c ∈ description.toList.takeWhile Text.isBlank, isInert c = true := fun c hc =>
        inert_of_isBlank (List.mem_takeWhile_imp hc)
      have hfront : s.run (description.toList.dropWhile Text.isBlank) = s.run description.toList := by
        have hsplit := congrArg s.run
          (List.takeWhile_append_dropWhile (p := Text.isBlank) (l := description.toList))
        rwa [run_append, h.run_inert hblanks] at hsplit
      have htrim : s.behind (Text.trim description.toList) = s.behind description.toList := by
        rw [Text.trim, h.sound.behind_dropRightWhile, behind, hfront]
        rfl
      rw [h.run_docText, Ready.behindLines_map (fun h line => h.sound.behind_dropRightWhile line) _ h,
        h.behindLines_lines, behind, h.sound.run_openComment]
      exact htrim.trans (hdescription description hd)

/-- **Indented text** is read like the text. -/
theorem Ready.behind_indentLines {s : OperatorScan} (h : s.Ready) {unit : List Char}
    (hunit : ∀ c ∈ unit, Text.isBlank c = true) (text : List Char) :
    s.behind (indentLines unit text) = s.behind text := by
  have hline : ∀ {s : OperatorScan}, s.Ready → ∀ line, s.behind (deepenLine unit line) = s.behind line := by
    intro s h line
    unfold deepenLine
    split
    · rename_i hempty
      rw [List.isEmpty_iff.mp hempty]
    · rw [behind, run_append, h.run_inert fun c hc => inert_of_isBlank (hunit c hc)]
      rfl
  have htext : indentLines unit text = Text.joinWith ['\n'] ((Text.lines text).map (deepenLine unit)) := rfl
  rw [htext, h.behind_joinWith, Ready.behindLines_map hline _ h, h.behindLines_lines]

end OperatorScan

/-! ## Neutral texts -/

/-- Behind the text the reader stands as before: strings and brackets that are opened in it are closed in it. -/
def Neutral (text : List Char) : Prop := OperatorScan.run {} text = {}

instance (text : List Char) : Decidable (Neutral text) := inferInstanceAs (Decidable (_ = _))

theorem ready_start : OperatorScan.Ready {} := ⟨OperatorScan.sound_start 0, rfl⟩

/-- Where no string is open, no backslash counts. -/
theorem neutral_iff_behind (text : List Char) : Neutral text ↔ OperatorScan.behind {} text = {} := by
  constructor
  · intro h
    rw [OperatorScan.behind, h]
    rfl
  · intro h
    have hquote : (OperatorScan.run {} text).quote = none := congrArg OperatorScan.quote h
    rw [Neutral, ← OperatorScan.settled_of_quote ready_start.sound.run hquote]
    exact h

/-- Text in brackets. -/
theorem Neutral.between {text : List Char} (h : Neutral text) {o c : Char}
    (hopen : OperatorScan.step {} o = OperatorScan.deeper {} 1)
    (hclose : (OperatorScan.deeper {} 1).step c = {}) : Neutral (o :: text ++ [c]) := by
  rw [Neutral, List.cons_append, OperatorScan.run_cons, hopen, OperatorScan.run_append, OperatorScan.run_deeper, h]
  exact hclose

/-- Outside strings and brackets a plain text is passed, backslashes included. -/
theorem neutral_of_plain : ∀ {text : List Char}, (∀ c ∈ text, isPlain c = true) → Neutral text
  | [], _ => rfl
  | c :: text, h => by
      obtain ⟨hc, htext⟩ := List.forall_mem_cons.mp h
      have hmarkers : c ∉ Layout.markers := by simpa [isPlain] using hc
      simp only [Layout.markers, List.mem_cons, List.not_mem_nil, or_false, not_or] at hmarkers
      have hstep : OperatorScan.step {} c = {} := by
        simp [OperatorScan.step, OperatorScan.stepOutside, hmarkers]
      rw [Neutral, OperatorScan.run_cons, hstep]
      exact neutral_of_plain htext

/-- **What is put together from neutral texts is neutral.** -/
theorem composes_neutral : Composes Neutral where
  plain := neutral_of_plain
  append ha hb := by rw [Neutral, OperatorScan.run_append, ha, hb]
  parens h := h.between rfl rfl
  square h := h.between rfl rfl
  braces h := h.between rfl rfl
  indent h := by
    rw [neutral_iff_behind] at h ⊢
    rw [ready_start.behind_indentLines (Style.blank_indentUnit _), h]

/-! ## Strings and comments -/

namespace OperatorScan

/-- Inside a string. -/
def within (double : Bool) : OperatorScan := { quote := some (quoteOf double) }

theorem run_inner {double : Bool} : ∀ {text : List Char}, (∀ c ∈ text, isInner double c = true) →
    (within double).run text = within double
  | [], _ => rfl
  | c :: text, h => by
      obtain ⟨hc, htext⟩ := List.forall_mem_cons.mp h
      simp only [isInner, Bool.and_eq_true, bne_iff_ne] at hc
      have hstep : (within double).step c = within double := by
        simp [within, step, stepString, hc]
      rw [run_cons, hstep]
      exact run_inner htext

theorem run_escapeChar (double : Bool) (c : Char) :
    (within double).run (Style.escapeChar (quoteOf double) c) = within double := by
  rcases Layout.escapeChar_cases double c with ⟨a, text, heq, -, htext⟩ | ⟨heq, hc⟩
  · -- the character behind the backslash does not count
    have hpair : (within double).run ['\\', a] = within double := by
      simp [within, run, step, stepString]
    have htext' : '\\' :: a :: text = ['\\', a] ++ text := rfl
    rw [heq, htext', run_append, hpair]
    exact run_inner htext
  · rw [heq]
    exact run_inner (by simpa using hc)

theorem run_flatMap {s : OperatorScan} {f : Char → List Char} (h : ∀ c, s.run (f c) = s) :
    ∀ text : List Char, s.run (text.flatMap f) = s
  | [] => rfl
  | c :: text => by
      rw [List.flatMap_cons, run_append, h c]
      exact run_flatMap h text

end OperatorScan

/-- **A string literal is neutral, whatever its text.** -/
theorem neutral_quoteChars (style : Style) (text : List Char) : Neutral (style.quoteChars text) := by
  have hopen : ∀ double, OperatorScan.step {} (quoteOf double) = OperatorScan.within double := by decide
  have hclose : ∀ double, (OperatorScan.within double).run [quoteOf double] = {} := by decide
  unfold Neutral Style.quoteChars
  rw [Layout.quoteMark_eq, List.cons_append, OperatorScan.run_cons, hopen, OperatorScan.run_append,
    OperatorScan.run_flatMap (OperatorScan.run_escapeChar _), hclose]

/-- A property name is neutral. -/
theorem neutral_keyText (style : Style) (name : String) : Neutral (keyText style name) := by
  unfold keyText
  split
  · next h => exact composes_neutral.plain (plain_of_isPlainIdentifier h)
  · exact neutral_quoteChars style _

/-- **The comment of a neutral description is neutral.** -/
theorem neutral_docText {schema : Json}
    (h : ∀ d, schema.getString? "description" = some d → Neutral d.toList) :
    Neutral (docText (docLines? schema)) :=
  ready_start.run_docText_docLines? fun d hd => (neutral_iff_behind _).mp (h d hd)

/-! ## Operators -/

/-- What is found behind a text is found. -/
theorem OperatorScan.findsOperator_append : ∀ {a b : List Char} {s : OperatorScan},
    (s.run a).findsOperator b = true → s.findsOperator (a ++ b) = true
  | [], _, _, h => h
  | c :: a, b, s, h => by
      have ih : (s.step c).findsOperator (a ++ b) = true := findsOperator_append (a := a) h
      rw [List.cons_append, OperatorScan.findsOperator, ih, Bool.or_true]

/-- **An operator behind a neutral text is found.** -/
theorem hasTopLevelOperator_joinWith {sep : List Char}
    (hsep : ∀ rest, OperatorScan.findsOperator {} (sep ++ rest) = true) {text next : List Char}
    {texts : List (List Char)} (h : Neutral text) :
    hasTopLevelOperator (Text.joinWith sep (text :: next :: texts)) = true := by
  have htext : Text.joinWith sep (text :: next :: texts)
      = text ++ (sep ++ Text.joinWith sep (next :: texts)) := by
    simp [Text.joinWith]
  rw [htext]
  refine OperatorScan.findsOperator_append ?_
  rw [h]
  exact hsep _

end DecoderForge.Types
