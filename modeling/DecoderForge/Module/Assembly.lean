import DecoderForge.Json.Printer
import DecoderForge.Layout.Writer
import DecoderForge.Module.Entry
import DecoderForge.Style

/-!
# DecoderForge — the generated module

The module holds imports, type declarations, support types, the decoding functions that its decoders
use, an error class, and the registry class with one static member per decoder.  The engine, with the
schema and its options, is there only if some decoder looks its validator up.

* `Module.assemble` — the text of a module before it is formatted.
-/

namespace DecoderForge

open Layout (Call)

/-- What a module is assembled from. -/
structure Module where
  /-- Name of the registry class. -/
  decoderName : String
  style : Style
  /-- Schema in which references are looked up. -/
  schema : Json
  engineOptions : Json
  /-- Import lines of compiled validators. -/
  imports : List String
  /-- Text of the type declarations. -/
  declarations : String
  entries : List DecoderEntry

namespace Module

/-- Name under which the engine knows the schema. -/
def engineSchemaId : String := "schema"

def errorClass (m : Module) : String := m.decoderName ++ "Error"

def issueType (m : Module) : String := m.decoderName ++ "Issue"

/-- Whether some decoder needs the engine. -/
def usesLookup (m : Module) : Bool := m.entries.any DecoderEntry.isPointerLookup

/-- Whether some decoder has a compiled validator. -/
def usesPrecompiled (m : Module) : Bool := m.entries.any fun e => !e.isPointerLookup

/-- A line that opens a block. -/
def opens (head : String) : Call := .opening (head ++ " \x7b")

/-- A line that closes a block. -/
def closes : Call := .closing "\x7d"

/-- An expression inside a template. -/
def hole (expression : String) : String := "$\x7b" ++ expression ++ "\x7d"

/-! ## Sections -/

def importSection (m : Module) : List Call :=
  [.line "/* eslint-disable */"]
    ++ (if m.usesLookup then [.line ("import Ajv from " ++ m.style.quote "ajv" ++ ";")] else [])
    ++ m.imports.map .line ++ [.blank]

def declarationSection (m : Module) : List Call :=
  if m.declarations.isEmpty then [] else [.raw m.declarations, .blank]

/-- The line that words a list of issues. -/
def describeLine (m : Module) : String :=
  let empty := m.style.quote ""
  "return (errors || []).map((e) => `" ++ hole ("e.dataPath || " ++ empty) ++ " "
    ++ hole ("e.message || " ++ empty) ++ "`.trim()).join(" ++ m.style.quote ", " ++ ") || "
    ++ m.style.quote "unknown" ++ ";"

def supportSection (m : Module) : List Call :=
  [opens ("export interface " ++ m.issueType),
    .line "dataPath?: string;",
    .line "message?: string;",
    .line "[k: string]: unknown;",
    closes,
    .blank,
    .line ("type Validator$ = ((json: unknown) => boolean) & \x7b errors?: " ++ m.issueType
      ++ "[] | null \x7d;"),
    .blank,
    opens ("function describe$(errors: " ++ m.issueType ++ "[] | null | undefined): string"),
    .line m.describeLine,
    closes,
    .blank]

/-- The schema as a constant. -/
def schemaLine (m : Module) : String := "const schema$ = " ++ m.schema.pretty ++ ";"

/-- The engine's options as a constant. -/
def engineOptionsLine (m : Module) : String := "const engineOptions$ = " ++ m.engineOptions.compact ++ ";"

def engineSection (m : Module) : List Call :=
  [.line m.schemaLine,
    .blank,
    .line m.engineOptionsLine,
    .blank,
    .line "let engine$: InstanceType<typeof Ajv> | undefined;",
    .blank,
    opens "function getEngine$(): InstanceType<typeof Ajv>",
    opens "if (!engine$)",
    .line "const instance = new Ajv(engineOptions$);",
    .line ("instance.addSchema(schema$, " ++ m.style.quote engineSchemaId ++ ");"),
    .line "engine$ = instance;",
    closes,
    .line "return engine$;",
    closes,
    .blank]

/-- The lines that throw, with the text behind the label and the issues. -/
def throwLine (m : Module) (details issues : String) : Call :=
  .line ("throw new " ++ m.errorClass ++ "(`Error validating " ++ hole "label" ++ ": " ++ details
    ++ "`, json, " ++ issues ++ ");")

/-- The lines that validate and return. -/
def checkLines (m : Module) : List Call :=
  [opens "if (!validator(json))",
    m.throwLine (hole "describe$(validator.errors)") "validator.errors || []",
    closes,
    .line "return json as T;"]

def decodeWithSection (m : Module) : List Call :=
  [opens "function decodeWith<T>(validator: Validator$, label: string): (json: unknown) => T",
    opens "return (json: unknown): T =>"]
    ++ m.checkLines ++ [.closing "\x7d;", closes, .blank]

def decodeAtSection (m : Module) : List Call :=
  [opens "function decodeAt<T>(pointer: string, label: string): (json: unknown) => T",
    .line "let validator: Validator$ | undefined;",
    opens "return (json: unknown): T =>",
    opens "if (!validator)",
    .line ("validator = getEngine$().getSchema(`" ++ engineSchemaId ++ hole "pointer"
      ++ "`) as Validator$ | undefined;"),
    closes,
    opens "if (!validator)",
    m.throwLine "unknown" "[]",
    closes]
    ++ m.checkLines ++ [.closing "\x7d;", closes, .blank]

def errorSection (m : Module) : List Call :=
  [opens ("export class " ++ m.errorClass ++ " extends Error"),
    .line "readonly json: unknown;",
    .line ("readonly errors: " ++ m.issueType ++ "[];"),
    .blank,
    opens ("constructor(message: string, json: unknown, errors: " ++ m.issueType ++ "[] = [])"),
    .line "super(message);",
    .line ("this.name = " ++ m.style.quote m.errorClass ++ ";"),
    .line "this.json = json;",
    .line "this.errors = errors;",
    .line ("Object.setPrototypeOf(this, " ++ m.errorClass ++ ".prototype);"),
    closes,
    closes,
    .blank]

/-- The member for a decoder. -/
def memberLine (style : Style) (e : DecoderEntry) : Call :=
  let (function, source) := match e.strategy with
    | .precompiled ident => ("decodeWith", ident)
    | .pointerLookup pointer => ("decodeAt", style.quote pointer)
  .line ("static " ++ e.name ++ " = " ++ function ++ "<" ++ e.name ++ ">(" ++ source ++ ", "
    ++ style.quote e.name ++ ");")

def registrySection (m : Module) : List Call :=
  opens ("export class " ++ m.decoderName) :: m.entries.map (memberLine m.style) ++ [closes]

/-! ## The whole -/

/-- The module as a list of calls. -/
def calls (m : Module) : List Call :=
  m.importSection ++ m.declarationSection ++ m.supportSection
    ++ (if m.usesLookup then m.engineSection else [])
    ++ (if m.usesPrecompiled then m.decodeWithSection else [])
    ++ (if m.usesLookup then m.decodeAtSection else [])
    ++ m.errorSection ++ m.registrySection

/-- The text of a module. -/
def assemble (m : Module) : String := Layout.render (String.ofList m.style.indentUnit) m.calls

end Module

end DecoderForge
