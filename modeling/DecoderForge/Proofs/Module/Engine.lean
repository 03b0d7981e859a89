import DecoderForge.Proofs.Json.Printed
import DecoderForge.Proofs.Layout.Rendering
import DecoderForge.Proofs.Module.Acceptance
import DecoderForge.Proofs.Result

/-!
# DecoderForge — the constants of the engine in formatted text

A module writes its schema and the options of its engine as constants.  The formatter may be in any region when
it reaches them, since the declarations in front of them are foreign text, and it lays their lines anew.  If it
accepts the module, the constants still read as the values that were written.

## The architecture

* **`Module.callsBeforeEngine`**, **`Module.assemble_toList`** — the lines in front of the engine, and the lines
  of the two constants.
* **`Module.tidy_constant`**, **`Module.exists_read_of_relaid`** — a line that gives a value a name.
* **`Module.engine_constants_read_back`** — the constants in the formatted text.
-/

namespace DecoderForge

open Layout

namespace Layout

/-! ## Lines outside every block -/

theorem depth_writeLine (w : Writer) (s : String) : (w.writeLine s).depth = w.depth := by
  unfold Writer.writeLine
  split <;> rfl

/-- A line outside every block is not indented. -/
theorem text_writeLine {w : Writer} (h : w.depth = 0) (s : String) : (w.writeLine s).text = w.text ++ s ++ "\n" := by
  unfold Writer.writeLine
  split
  · next hempty =>
    rw [String.isEmpty_iff.mp hempty, String.append_empty]
  · rw [h, Writer.indentation, String.append_empty]

theorem depth_step (w : Writer) (c : Call) : (w.step c).depth = c.behind w.depth := by
  cases c with
  | line s => exact depth_writeLine w s
  | opening s => exact congrArg (· + 1) (depth_writeLine w s)
  | closing s => exact depth_writeLine w.shallower s
  | reopening s => exact congrArg (· + 1) (depth_writeLine w.shallower s)
  | blank => rfl
  | raw s =>
      unfold Writer.step
      simp only
      split <;> rfl

theorem depth_run (w : Writer) (calls : List Call) :
    (w.run calls).depth = calls.foldl (fun depth c => c.behind depth) w.depth := by
  induction calls generalizing w with
  | nil => rfl
  | cons c calls ih =>
      show ((w.step c).run calls).depth = _
      rw [ih, depth_step]
      rfl

theorem run_append (w : Writer) (a b : List Call) : w.run (a ++ b) = (w.run a).run b := List.foldl_append

/-- What is written stays in front. -/
theorem exists_text_run (w : Writer) (calls : List Call) : ∃ more, (w.run calls).text = w.text ++ more := by
  have hline (w : Writer) (s : String) : ∃ more, (w.writeLine s).text = w.text ++ more := by
    unfold Writer.writeLine
    split
    · exact ⟨_, rfl⟩
    · exact ⟨_, by rw [String.append_assoc, String.append_assoc]⟩
  have hstep (w : Writer) (c : Call) : ∃ more, (w.step c).text = w.text ++ more := by
    cases c with
    | line s => exact hline w s
    | opening s => exact hline w s
    | closing s => exact hline w.shallower s
    | reopening s => exact hline w.shallower s
    | blank => exact ⟨_, rfl⟩
    | raw s =>
        unfold Writer.step
        simp only
        split
        · exact ⟨_, rfl⟩
        · exact ⟨_, by rw [String.append_assoc]⟩
  induction calls generalizing w with
  | nil => exact ⟨"", String.append_empty.symm⟩
  | cons c calls ih =>
      obtain ⟨front, hfront⟩ := hstep w c
      obtain ⟨back, hback⟩ := ih (w.step c)
      refine ⟨front ++ back, ?_⟩
      show ((w.step c).run calls).text = _
      rw [hback, hfront, String.append_assoc]

/-- Lines open and close nothing. -/
theorem foldl_behind_lines (depth : Nat) (lines : List String) :
    (lines.map Call.line).foldl (fun depth c => c.behind depth) depth = depth := by
  induction lines with
  | nil => rfl
  | cons s lines ih => exact ih

end Layout

namespace Module

/-- What is written in front of the engine. -/
def callsBeforeEngine (m : Module) : List Call := m.importSection ++ m.declarationSection ++ m.supportSection

/-- The text in front of the engine. -/
def textBeforeEngine (m : Module) : String := render (String.ofList m.style.indentUnit) m.callsBeforeEngine

theorem foldl_behind_callsBeforeEngine (m : Module) :
    m.callsBeforeEngine.foldl (fun depth c => c.behind depth) 0 = 0 := by
  have himports : m.importSection.foldl (fun depth c => c.behind depth) 0 = 0 := by
    unfold importSection
    rw [List.foldl_append, List.foldl_append, List.foldl_append]
    cases m.usesLookup with
    | true => exact foldl_behind_lines 0 m.imports
    | false => exact foldl_behind_lines 0 m.imports
  have hdeclarations : m.declarationSection.foldl (fun depth c => c.behind depth) 0 = 0 := by
    unfold declarationSection
    split <;> rfl
  unfold callsBeforeEngine
  rw [List.foldl_append, List.foldl_append, himports, hdeclarations]
  rfl

/-- **The lines of the constants** stand behind the line end of what is written in front of them. -/
theorem assemble_toList {m : Module} (h : m.usesLookup = true) : ∃ before after : List Char,
    m.textBeforeEngine.toList = before ++ ['\n']
      ∧ m.assemble.toList = before ++ '\n' :: (m.schemaLine.toList
        ++ '\n' :: '\n' :: (m.engineOptionsLine.toList ++ '\n' :: after)) := by
  obtain ⟨first, hfirst⟩ : ∃ first, m.callsBeforeEngine = first ++ [.blank] :=
    ⟨m.importSection ++ m.declarationSection ++ m.supportSection.dropLast, by
      unfold callsBeforeEngine
      rw [List.append_assoc _ _ [Call.blank]]
      rfl⟩
  obtain ⟨rest, hrest⟩ : ∃ rest, m.calls
      = m.callsBeforeEngine ++ ([.line m.schemaLine, .blank, .line m.engineOptionsLine] ++ rest) := by
    refine ⟨m.engineSection.drop 3 ++ (if m.usesPrecompiled then m.decodeWithSection else [])
      ++ m.decodeAtSection ++ m.errorSection ++ m.registrySection, ?_⟩
    unfold calls callsBeforeEngine
    rw [if_pos h, if_pos h]
    simp [engineSection]
  -- the writer in front of the engine, and the one behind the constants
  obtain ⟨w, hw⟩ : ∃ w, w = Writer.run ⟨String.ofList m.style.indentUnit, 0, ""⟩ m.callsBeforeEngine := ⟨_, rfl⟩
  have hdepth : w.depth = 0 := by
    rw [hw, depth_run]
    exact m.foldl_behind_callsBeforeEngine
  have hconstants : (w.run [.line m.schemaLine, .blank, .line m.engineOptionsLine]).text
      = w.text ++ m.schemaLine ++ "\n" ++ "\n" ++ m.engineOptionsLine ++ "\n" := by
    have hblank : (w.run [.line m.schemaLine, .blank]).text = w.text ++ m.schemaLine ++ "\n" ++ "\n" :=
      congrArg (· ++ "\n") (text_writeLine hdepth m.schemaLine)
    have hlevel : (w.run [.line m.schemaLine, .blank]).depth = 0 := (depth_writeLine w m.schemaLine).trans hdepth
    exact (text_writeLine hlevel m.engineOptionsLine).trans (by rw [hblank])
  have htext : m.textBeforeEngine = w.text := by rw [hw]; rfl
  have hfront : w.text = (Writer.run ⟨String.ofList m.style.indentUnit, 0, ""⟩ first).text ++ "\n" := by
    rw [hw, hfirst, run_append]
    rfl
  obtain ⟨after, hafter⟩ := exists_text_run (w.run [.line m.schemaLine, .blank, .line m.engineOptionsLine]) rest
  have hassemble : m.assemble = w.text ++ m.schemaLine ++ "\n" ++ "\n" ++ m.engineOptionsLine ++ "\n" ++ after := by
    unfold assemble render
    rw [hrest, run_append, run_append, ← hw, hafter, hconstants]
  refine ⟨(Writer.run ⟨String.ofList m.style.indentUnit, 0, ""⟩ first).text.toList, after.toList, ?_, ?_⟩
  · rw [htext, hfront, String.toList_append]
    rfl
  · rw [hassemble, hfront]
    simp [String.toList_append]

/-! ## Constants -/

/-- A line that gives a value a name is tidy. -/
theorem tidy_constant {head : String} (hhead : Text.Trimmed head.toList) {value : String}
    (hvalue : Text.Tidy value.toList) : Text.Tidy (head ++ " " ++ value ++ ";").toList := by
  have hend : Text.Tidy [';'] := .line ⟨rfl, rfl, by decide⟩
  have hline := Text.Tidy.cons_line hhead (by decide : '\n' ∉ [' ']) (hvalue.append hend)
  simpa [String.toList_append] using hline

/-- **A constant that is laid anew reads as the same value.** -/
theorem exists_read_of_relaid {e : EndOfLine} {head value : String} {t : List Char} (hhead : '\n' ∉ head.toList)
    (h : Text.Relaid e.chars (head ++ " " ++ value ++ ";").toList t) :
    ∃ value' : String, t = (head ++ " " ++ value' ++ ";").toList ∧ Json.read? value' = Json.read? value := by
  have hline : (head ++ " " ++ value ++ ";").toList = (head ++ " ").toList ++ (value.toList ++ [';']) := by
    simp [String.toList_append]
  rw [hline] at h
  have hfront : '\n' ∉ (head ++ " ").toList := by
    rw [String.toList_append]
    exact Json.newline_notMem_append hhead (by decide)
  obtain ⟨t₁, rfl, hrest⟩ := h.of_append hfront
  have hsemicolon : ';' ≠ '\n' ∧ ';' ≠ ' ' ∧ ';' ≠ '\t' := by decide
  obtain ⟨t₂, rfl, hvalue⟩ := hrest.of_concat hsemicolon
  refine ⟨String.ofList t₂, by simp [String.toList_append], ?_⟩
  unfold Json.read? Json.Token.ofText?
  rw [String.toList_ofList, hvalue.ofChars?_eq]

/-- What the formatter has written of a module when it reaches the engine. -/
def WrittenBeforeEngine (m : Module) (style : Style) (text : String) : Prop :=
  ∃ p, formatLines style.indentUnit 1 .start (Text.lines m.textBeforeEngine.toList) = .ok p
    ∧ p.written style = text.toList

/-- A text in which the constants of the engine read as their values: right behind what is written in front of
the engine, each on lines of its own and up to the last character of these. -/
def ConstantsReadBack (m : Module) (style : Style) (text : String) : Prop :=
  ∃ before indent schema indent' options after newline : String,
    text = before ++ indent ++ "const schema$ = " ++ schema ++ ";" ++ newline ++ newline
        ++ indent' ++ "const engineOptions$ = " ++ options ++ ";" ++ newline ++ after
      ∧ m.WrittenBeforeEngine style before ∧ newline.toList = style.endOfLine.chars
      ∧ Text.Indents indent.toList ∧ Text.Indents indent'.toList
      ∧ Json.read? schema = some m.schema ∧ Json.read? options = some m.engineOptions

/-- **The constants of the engine survive formatting**, if they read back as they are printed. -/
theorem engine_constants_read_back (m : Module) (style : Style) {text : String} (hlookup : m.usesLookup = true)
    (hschema : Json.read? m.schema.pretty = some m.schema)
    (hoptions : Json.read? m.engineOptions.compact = some m.engineOptions)
    (h : format m.assemble style = .ok text) : m.ConstantsReadBack style text := by
  obtain ⟨t, ht, rfl⟩ := map_eq_ok h
  obtain ⟨p, hlead, -, -, rfl⟩ := formatChars_eq_ok_iff.mp ht
  obtain ⟨before, after, hbefore, hassemble⟩ := assemble_toList hlookup
  -- the run goes through the lines in front, the schema, an empty line, the options, and the rest
  have hnone : Text.lines ('\n' :: (m.engineOptionsLine.toList ++ '\n' :: after))
      = [] :: Text.lines (m.engineOptionsLine.toList ++ '\n' :: after) := Text.lines_append [] _
  rw [hassemble, Text.lines_append, Text.lines_append, hnone, Text.lines_append] at hlead
  obtain ⟨p₁, hfront, hlead⟩ := hlead.of_append
  obtain ⟨p₂, hschemaLines, hlead⟩ := hlead.of_append
  obtain _ | ⟨hempty, hlead⟩ := hlead
  obtain ⟨p₄, hoptionsLine, hrest⟩ := hlead.of_append
  have hindents : Text.Indents [] := fun _ h => absurd h List.not_mem_nil
  have hschemaHead : Text.Trimmed "const schema$ =".toList := ⟨rfl, rfl, by decide⟩
  have hoptionsHead : Text.Trimmed "const engineOptions$ =".toList := ⟨rfl, rfl, by decide⟩
  have hschemaTidy : Text.Tidy m.schemaLine.toList := tidy_constant hschemaHead (Json.tidy_pretty m.schema)
  have hoptionsTidy : Text.Tidy m.engineOptionsLine.toList :=
    tidy_constant hoptionsHead (.line (Json.trimmed_compact m.engineOptions))
  obtain ⟨indent, t₁, hindent, hrelaid₁, hbehind₂, hwritten₂⟩ := Leads.relaid hschemaTidy hindents hschemaLines
  obtain ⟨indent', t₂, hindent', hrelaid₂, hbehind₄, hwritten₄⟩ := Leads.relaid hoptionsTidy hindents hoptionsLine
  obtain ⟨schema', rfl, hschema'⟩ := exists_read_of_relaid hschemaHead.single hrelaid₁
  obtain ⟨options', rfl, hoptions'⟩ := exists_read_of_relaid hoptionsHead.single hrelaid₂
  obtain ⟨rest, htext⟩ := hrest.text_eq hbehind₄
  refine ⟨String.ofList (p₁.written style), String.ofList indent, schema', String.ofList indent', options',
    String.ofList rest, String.ofList style.endOfLine.chars, ?_, ⟨p₁, ?_, ?_⟩, ?_, ?_, ?_,
    hschema'.trans hschema, hoptions'.trans hoptions⟩
  · rw [htext, hwritten₄, hempty.written_empty hbehind₂, hwritten₂]
    rw [← String.toList_inj]
    simp [String.toList_append]
  · rw [hbefore, Text.lines_append, formatLines_eq_ok_iff]
    simpa [Text.lines, Text.splitAt, Text.linesOfSegments] using hfront
  · rw [String.toList_ofList]
  · rw [String.toList_ofList]
  · rwa [String.toList_ofList]
  · rwa [String.toList_ofList]

/-- A module with texts that look like comments, templates and brackets in its schema. -/
def guarded : Module where
  decoderName := "Api"
  style := {}
  schema := .obj [("definitions", .obj [("User", .obj [("description", .str " `// \"\x7d' ")])])]
  engineOptions := .obj [("allErrors", .bool true)]
  imports := []
  declarations := ""
  entries := [⟨"User", "User", .pointerLookup "#/definitions/User"⟩]

theorem engine_constants_of_guarded : ∃ text, guarded.usesLookup = true
    ∧ Json.read? guarded.schema.pretty = some guarded.schema
    ∧ Json.read? guarded.engineOptions.compact = some guarded.engineOptions
    ∧ format guarded.assemble {} = .ok text ∧ guarded.ConstantsReadBack {} text := by
  have hordinary : guarded.Ordinary := ⟨by decide, by simp [guarded], by decide, by
    intro e he i hi
    rw [List.mem_singleton.mp he] at hi
    exact absurd hi (by simp)⟩
  have haccepted := (format_assemble_isOk_iff hordinary (Lexes.nil .code) rfl {}).mpr rfl
  have hschema : Json.read? guarded.schema.pretty = some guarded.schema := by cbv
  have hoptions : Json.read? guarded.engineOptions.compact = some guarded.engineOptions := by cbv
  cases h : format guarded.assemble {} with
  | error f =>
      rw [h] at haccepted
      exact absurd haccepted Bool.false_ne_true
  | ok text => exact ⟨text, rfl, hschema, hoptions, rfl, engine_constants_read_back guarded {} rfl hschema hoptions h⟩

end Module

end DecoderForge
