import DecoderForge.Options.Basic

/-!
# DecoderForge — options as JSON

Every field is written, defaults included; only absent names and paths are left out.
-/

namespace DecoderForge

def Draft.word : Draft → String
  | .draft4 => "draft4"
  | .draft6 => "draft6"
  | .draft7 => "draft7"

def EndOfLine.word : EndOfLine → String
  | .lf => "lf"
  | .crlf => "crlf"

def CollisionPolicy.word : CollisionPolicy → String
  | .error => "error"
  | .disambiguate => "disambiguate"

def Mode.word : Mode → String
  | .pack => "pack"
  | .noPack => "no_pack"

/-- A field that is left out when absent. -/
def optionalField (name : String) : Option String → Json.Members
  | some s => [(name, .str s)]
  | none => []

/-- Each text once, at its first place. -/
def distinct : List String → List String
  | [] => []
  | s :: rest => s :: (distinct rest).filter (· != s)

/-- Texts in ascending order, each once. -/
def sortedTexts (texts : List String) : List String :=
  (distinct texts).mergeSort (fun a b => decide (a ≤ b))

def Style.toJson (s : Style) : Json :=
  .obj [("tab_width", .ofInt s.tabWidth), ("use_tabs", .bool s.useTabs),
    ("single_quote", .bool s.singleQuote), ("end_of_line", .str s.endOfLine.word)]

def ValidatorOptions.toJson (o : ValidatorOptions) : Json :=
  .obj [("draft", .str o.draft.word), ("validate_formats", .bool o.validateFormats),
    ("engine", .obj o.engine)]

/-- Acronyms form a set and are written in ascending order. -/
def Naming.toJson (n : Naming) : Json :=
  .obj [("acronyms", .arr ((sortedTexts n.acronyms).map .str))]

def GenerateOptions.toJson (o : GenerateOptions) : Json :=
  .obj ([("style", o.style.toJson), ("validator", o.validator.toJson)]
    ++ optionalField "decoder_name" o.decoderName
    ++ [("pack", .bool o.pack), ("naming", o.naming.toJson), ("collision", .str o.collision.word)])

def Paths.toJson (p : Paths) : Json :=
  .obj (optionalField "input" p.input ++ optionalField "output" p.output)

def Config.toJson (c : Config) : Json :=
  .obj [("generate", c.generate.toJson), ("paths", c.paths.toJson)]

end DecoderForge
