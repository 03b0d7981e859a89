import DecoderForge.Module.Assembly
import DecoderForge.Proofs.Layout.Calls
import DecoderForge.Proofs.Layout.Literals
import DecoderForge.Proofs.Types.Pieces

/-!
# DecoderForge — the fixed sections of a module

Everything in a module but its declarations comes from a frame into which names, string literals and
JSON are put.  Each section is read as code from one end to the other and leaves no bracket open, so
that the module is accepted exactly when the declarations are.

## The architecture

* **`Module.Ordinary`** — modules with plain names.
* **`Module.takesAll_…`** — one lemma per section.
* **`Module.format_assemble_isOk_iff`** — acceptance of a module depends on the brackets of its
  declarations alone.
-/

namespace DecoderForge.Module

open Layout

/-- Modules of which every name is plain. -/
structure Ordinary (m : Module) : Prop where
  decoderName : ∀ c ∈ m.decoderName.toList, isPlain c = true
  imports : ∀ s ∈ m.imports, Closed s.toList
  name : ∀ e ∈ m.entries, ∀ c ∈ e.name.toList, isPlain c = true
  ident : ∀ e ∈ m.entries, ∀ i, e.strategy = .precompiled i → ∀ c ∈ i.toList, isPlain c = true

/-! ## Lines -/

theorem takes_line {s : String} (h : Closed s.toList) (stack : List Char) :
    Takes stack (Call.line s).body stack := (h.takes stack).append (takes_newline stack)

/-- A line that opens a block. -/
theorem takes_opens {head : String} {stack : List Char} (h : Takes stack head.toList stack) :
    Takes stack (opens head).body ('{' :: stack) := by
  have hbrace : Takes stack " \x7b".toList ('{' :: stack) := rfl
  show Takes stack ((head ++ " \x7b").toList ++ ['\n']) ('{' :: stack)
  rw [String.toList_append]
  exact (h.append hbrace).append (takes_newline _)

/-- A line that closes a block. -/
theorem takes_closes (stack : List Char) : Takes ('{' :: stack) closes.body stack := rfl

theorem takes_blank (stack : List Char) : Takes stack Call.blank.body stack := takes_newline stack

/-- A plain text between two others. -/
theorem takes_between {front middle back : String} {stack stack₁ stack₂ : List Char}
    (hfront : Takes stack front.toList stack₁) (hmiddle : ∀ c ∈ middle.toList, isPlain c = true)
    (hback : Takes stack₁ back.toList stack₂) :
    Takes stack (front ++ middle ++ back).toList stack₂ := by
  rw [String.toList_append, String.toList_append]
  exact (hfront.append ((closed_of_plain hmiddle).takes stack₁)).append hback

/-- The same for a whole line. -/
theorem takes_line_between {front middle back : String} {stack stack₁ stack₂ : List Char}
    (hfront : Takes stack front.toList stack₁) (hmiddle : ∀ c ∈ middle.toList, isPlain c = true)
    (hback : Takes stack₁ back.toList stack₂) :
    Takes stack (Call.line (front ++ middle ++ back)).body stack₂ :=
  (takes_between hfront hmiddle hback).append (takes_newline stack₂)

/-- A string literal between two texts. -/
theorem takes_line_quoted {front back : String} {stack stack₁ stack₂ : List Char}
    (hfront : Takes stack front.toList stack₁) (style : Style) (s : String)
    (hback : Takes stack₁ back.toList stack₂) :
    Takes stack (Call.line (front ++ style.quote s ++ back)).body stack₂ := by
  show Takes stack ((front ++ style.quote s ++ back).toList ++ ['\n']) stack₂
  rw [String.toList_append, String.toList_append]
  exact ((hfront.append ((quiet_styleQuote style s).closed.takes stack₁)).append hback).append
    (takes_newline stack₂)

/-! ## Names -/

variable {m : Module}

theorem Ordinary.errorClass (h : m.Ordinary) : ∀ c ∈ m.errorClass.toList, isPlain c = true := by
  unfold Module.errorClass
  rw [String.toList_append]
  exact List.forall_mem_append.mpr ⟨h.decoderName, by decide⟩

theorem Ordinary.issueType (h : m.Ordinary) : ∀ c ∈ m.issueType.toList, isPlain c = true := by
  unfold Module.issueType
  rw [String.toList_append]
  exact List.forall_mem_append.mpr ⟨h.decoderName, by decide⟩

/-! ## Sections -/

theorem takesAll_importSection (h : m.Ordinary) (stack : List Char) :
    TakesAll stack m.importSection stack := by
  have hengine : TakesAll stack
      (if m.usesLookup then [Call.line ("import Ajv from " ++ m.style.quote "ajv" ++ ";")] else []) stack := by
    split
    · have hfront : Takes stack "import Ajv from ".toList stack := rfl
      exact .single (takes_line_quoted hfront _ _ rfl)
    · exact .nil stack
  have himports : TakesAll stack (m.imports.map Call.line) stack := by
    refine .ofForall fun c hc => ?_
    obtain ⟨s, hs, rfl⟩ := List.mem_map.mp hc
    exact takes_line (h.imports s hs) stack
  have hfirst : TakesAll stack [.line "/* eslint-disable */"] stack := .single rfl
  exact ((hfirst.append hengine).append himports).append (.single (takes_blank stack))

set_option maxRecDepth 2000 in
/-- The line with the template: its quotes are those of the style. -/
theorem takes_describeLine (stack : List Char) : Takes stack (Call.line m.describeLine).body stack := by
  unfold describeLine Style.quote Style.quoteChars Style.quoteMark
  cases m.style.singleQuote <;> rfl

theorem takesAll_supportSection (h : m.Ordinary) (stack : List Char) :
    TakesAll stack m.supportSection stack := by
  have hexport : Takes stack "export interface ".toList stack := rfl
  have hinterface : Takes stack ("export interface " ++ m.issueType).toList stack := by
    rw [String.toList_append]
    exact hexport.append ((closed_of_plain h.issueType).takes stack)
  have hfunction : Takes stack "function describe$(errors: ".toList ('(' :: stack) := rfl
  have hdescribe : Takes stack
      ("function describe$(errors: " ++ m.issueType ++ "[] | null | undefined): string").toList stack :=
    takes_between hfunction h.issueType rfl
  have htype : Takes stack "type Validator$ = ((json: unknown) => boolean) & \x7b errors?: ".toList
      ('{' :: stack) := rfl
  have hvalidator : Takes stack (Call.line ("type Validator$ = ((json: unknown) => boolean) & \x7b errors?: "
      ++ m.issueType ++ "[] | null \x7d;")).body stack := takes_line_between htype h.issueType rfl
  exact .cons (takes_opens hinterface) <| .cons rfl <| .cons rfl <| .cons rfl <| .cons (takes_closes _) <|
    .cons (takes_blank _) <| .cons hvalidator <| .cons (takes_blank _) <| .cons (takes_opens hdescribe) <|
    .cons (takes_describeLine _) <| .cons (takes_closes _) <| .single (takes_blank _)

theorem takesAll_engineSection (stack : List Char) : TakesAll stack m.engineSection stack := by
  have hschema : Closed m.schemaLine.toList := by
    unfold schemaLine
    rw [String.toList_append, String.toList_append]
    exact ((closed_of_plain (by decide)).append (closed_pretty m.schema)).append (closed_of_plain (by decide))
  have hoptions : Closed m.engineOptionsLine.toList := by
    unfold engineOptionsLine
    rw [String.toList_append, String.toList_append]
    exact ((closed_of_plain (by decide)).append (closed_compact m.engineOptions)).append
      (closed_of_plain (by decide))
  have hadd : Takes ('{' :: '{' :: stack) "instance.addSchema(schema$, ".toList ('(' :: '{' :: '{' :: stack) :=
    rfl
  have hconstants : TakesAll stack
      [.line m.schemaLine, .blank, .line m.engineOptionsLine, .blank,
        .line "let engine$: InstanceType<typeof Ajv> | undefined;", .blank] stack :=
    .cons (takes_line hschema _) <| .cons (takes_blank _) <| .cons (takes_line hoptions _) <|
      .cons (takes_blank _) <| .cons rfl <| .single (takes_blank _)
  exact hconstants.append <| .cons (takes_opens rfl) <| .cons (takes_opens rfl) <| .cons rfl <|
    .cons (takes_line_quoted hadd _ _ rfl) <| .cons rfl <| .cons (takes_closes _) <| .cons rfl <|
    .cons (takes_closes _) <| .single (takes_blank _)

set_option maxRecDepth 2000 in
/-- The line that throws with the issues of the validator. -/
theorem takes_throwLine_issues (h : m.Ordinary) (stack : List Char) :
    Takes stack (m.throwLine (hole "describe$(validator.errors)") "validator.errors || []").body stack := by
  have hline : m.throwLine (hole "describe$(validator.errors)") "validator.errors || []"
      = .line ("throw new " ++ m.errorClass ++ ("(`Error validating " ++ hole "label" ++ ": "
        ++ hole "describe$(validator.errors)" ++ "`, json, " ++ "validator.errors || []" ++ ");")) := by
    unfold throwLine
    simp only [String.append_assoc]
  rw [hline]
  have hthrow : Takes stack "throw new ".toList stack := rfl
  exact takes_line_between hthrow h.errorClass rfl

set_option maxRecDepth 2000 in
/-- The line that throws where there is no validator. -/
theorem takes_throwLine_unknown (h : m.Ordinary) (stack : List Char) :
    Takes stack (m.throwLine "unknown" "[]").body stack := by
  have hline : m.throwLine "unknown" "[]"
      = .line ("throw new " ++ m.errorClass ++ ("(`Error validating " ++ hole "label" ++ ": "
        ++ "unknown" ++ "`, json, " ++ "[]" ++ ");")) := by
    unfold throwLine
    simp only [String.append_assoc]
  rw [hline]
  have hthrow : Takes stack "throw new ".toList stack := rfl
  exact takes_line_between hthrow h.errorClass rfl

theorem takesAll_checkLines (h : m.Ordinary) (stack : List Char) : TakesAll stack m.checkLines stack :=
  .cons (takes_opens rfl) <| .cons (takes_throwLine_issues h _) <| .cons (takes_closes _) <| .single rfl

theorem takesAll_decodeWithSection (h : m.Ordinary) (stack : List Char) :
    TakesAll stack m.decodeWithSection stack := by
  have hopen : TakesAll stack
      [opens "function decodeWith<T>(validator: Validator$, label: string): (json: unknown) => T",
        opens "return (json: unknown): T =>"] ('{' :: '{' :: stack) := .cons (takes_opens rfl) <| .single (takes_opens rfl)
  have hclose : TakesAll ('{' :: '{' :: stack) [.closing "\x7d;", closes, .blank] stack :=
    .cons rfl <| .cons (takes_closes _) <| .single (takes_blank _)
  exact (hopen.append (takesAll_checkLines h _)).append hclose

set_option maxRecDepth 2000 in
/-- The line that asks the engine. -/
theorem takes_getSchemaLine (stack : List Char) :
    Takes stack (Call.line ("validator = getEngine$().getSchema(`" ++ engineSchemaId ++ hole "pointer"
      ++ "`) as Validator$ | undefined;")).body stack := rfl

theorem takesAll_decodeAtSection (h : m.Ordinary) (stack : List Char) :
    TakesAll stack m.decodeAtSection stack := by
  have hopen : TakesAll stack
      [opens "function decodeAt<T>(pointer: string, label: string): (json: unknown) => T",
        .line "let validator: Validator$ | undefined;",
        opens "return (json: unknown): T =>",
        opens "if (!validator)",
        .line ("validator = getEngine$().getSchema(`" ++ engineSchemaId ++ hole "pointer"
          ++ "`) as Validator$ | undefined;"),
        closes,
        opens "if (!validator)",
        m.throwLine "unknown" "[]",
        closes] ('{' :: '{' :: stack) :=
    .cons (takes_opens rfl) <| .cons rfl <| .cons (takes_opens rfl) <| .cons (takes_opens rfl) <|
      .cons (takes_getSchemaLine _) <| .cons (takes_closes _) <| .cons (takes_opens rfl) <|
      .cons (takes_throwLine_unknown h _) <| .single (takes_closes _)
  have hclose : TakesAll ('{' :: '{' :: stack) [.closing "\x7d;", closes, .blank] stack :=
    .cons rfl <| .cons (takes_closes _) <| .single (takes_blank _)
  exact (hopen.append (takesAll_checkLines h _)).append hclose

theorem takesAll_errorSection (h : m.Ordinary) (stack : List Char) :
    TakesAll stack m.errorSection stack := by
  have hclass : Takes stack ("export class " ++ m.errorClass ++ " extends Error").toList stack := by
    have hexport : Takes stack "export class ".toList stack := rfl
    exact takes_between hexport h.errorClass rfl
  have hfields : Takes ('{' :: stack) (Call.line ("readonly errors: " ++ m.issueType ++ "[];")).body
      ('{' :: stack) := by
    have hreadonly : Takes ('{' :: stack) "readonly errors: ".toList ('{' :: stack) := rfl
    exact takes_line_between hreadonly h.issueType rfl
  have hconstructor : Takes ('{' :: stack)
      ("constructor(message: string, json: unknown, errors: " ++ m.issueType ++ "[] = [])").toList
      ('{' :: stack) := by
    have hparameters : Takes ('{' :: stack) "constructor(message: string, json: unknown, errors: ".toList
        ('(' :: '{' :: stack) := rfl
    exact takes_between hparameters h.issueType rfl
  have hthis : Takes ('{' :: '{' :: stack) "this.name = ".toList ('{' :: '{' :: stack) := rfl
  have hprototype : Takes ('{' :: '{' :: stack)
      (Call.line ("Object.setPrototypeOf(this, " ++ m.errorClass ++ ".prototype);")).body
      ('{' :: '{' :: stack) := by
    have hset : Takes ('{' :: '{' :: stack) "Object.setPrototypeOf(this, ".toList
        ('(' :: '{' :: '{' :: stack) := rfl
    exact takes_line_between hset h.errorClass rfl
  exact .cons (takes_opens hclass) <| .cons rfl <| .cons hfields <| .cons (takes_blank _) <|
    .cons (takes_opens hconstructor) <| .cons rfl <| .cons (takes_line_quoted hthis _ _ rfl) <|
    .cons rfl <| .cons rfl <| .cons hprototype <| .cons (takes_closes _) <| .cons (takes_closes _) <|
    .single (takes_blank _)

/-- The member for a decoder. -/
theorem takes_memberLine (style : Style) {e : DecoderEntry} (hname : ∀ c ∈ e.name.toList, isPlain c = true)
    (hident : ∀ i, e.strategy = .precompiled i → ∀ c ∈ i.toList, isPlain c = true) (stack : List Char) :
    Takes stack (memberLine style e).body stack := by
  -- the call is the same for both kinds of validator, with another function and another source
  have hcall : ∀ function source : String, (∀ c ∈ function.toList, isPlain c = true) →
      Closed source.toList → Closed ("static " ++ e.name ++ " = " ++ function ++ "<" ++ e.name ++ ">("
        ++ source ++ ", " ++ style.quote e.name ++ ");").toList := by
    intro function source hfunction hsource
    have harguments : Closed ('(' :: (source.toList ++ ", ".toList ++ (style.quote e.name).toList) ++ [')']) :=
      ((hsource.append (closed_of_plain (by decide))).append (quiet_styleQuote style _).closed).parens
    have hhead : Closed ("static ".toList ++ e.name.toList ++ " = ".toList ++ function.toList ++ "<".toList
        ++ e.name.toList ++ ">".toList) :=
      (((((((closed_of_plain (by decide)).append (closed_of_plain hname)).append
        (closed_of_plain (by decide))).append (closed_of_plain hfunction)).append
        (closed_of_plain (by decide))).append (closed_of_plain hname)).append (closed_of_plain (by decide)))
    have hend : Closed ";".toList := closed_of_plain (by decide)
    simpa [String.toList_append] using (hhead.append harguments).append hend
  unfold memberLine
  cases hstrategy : e.strategy with
  | precompiled i =>
      exact takes_line (hcall "decodeWith" i (by decide) (closed_of_plain (hident i hstrategy))) stack
  | pointerLookup pointer =>
      exact takes_line (hcall "decodeAt" (style.quote pointer) (by decide)
        (quiet_styleQuote style pointer).closed) stack

theorem takesAll_registrySection (h : m.Ordinary) (stack : List Char) :
    TakesAll stack m.registrySection stack := by
  have hexport : Takes stack "export class ".toList stack := rfl
  have hclass : Takes stack ("export class " ++ m.decoderName).toList stack := by
    rw [String.toList_append]
    exact hexport.append ((closed_of_plain h.decoderName).takes stack)
  have hmembers : TakesAll ('{' :: stack) (m.entries.map (memberLine m.style)) ('{' :: stack) := by
    refine .ofForall fun c hc => ?_
    obtain ⟨e, he, rfl⟩ := List.mem_map.mp hc
    exact takes_memberLine m.style (h.name e he) (h.ident e he) _
  have hopen : TakesAll stack [opens ("export class " ++ m.decoderName)] ('{' :: stack) :=
    .single (takes_opens hclass)
  exact (hopen.append hmembers).append (.single (takes_closes stack))

/-- All sections behind the declarations. -/
theorem takesAll_afterDeclarations (h : m.Ordinary) (stack : List Char) :
    TakesAll stack (m.supportSection ++ (if m.usesLookup then m.engineSection else [])
      ++ (if m.usesPrecompiled then m.decodeWithSection else [])
      ++ (if m.usesLookup then m.decodeAtSection else []) ++ m.errorSection ++ m.registrySection) stack := by
  have hoptional : ∀ {section' : List Call} (b : Bool), TakesAll stack section' stack →
      TakesAll stack (if b then section' else []) stack := by
    intro section' b hsection
    cases b with
    | true => exact hsection
    | false => exact .nil stack
  exact (((((takesAll_supportSection h stack).append (hoptional _ (takesAll_engineSection stack))).append
    (hoptional _ (takesAll_decodeWithSection h stack))).append
    (hoptional _ (takesAll_decodeAtSection h stack))).append (takesAll_errorSection h stack)).append
    (takesAll_registrySection h stack)

end DecoderForge.Module
