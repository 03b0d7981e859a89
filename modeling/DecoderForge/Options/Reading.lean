import DecoderForge.Options.Basic

/-!
# DecoderForge — reading options

Options are read from a tree of named values.  What counts as a flag, a number or a text differs
between formats, so a format supplies `ScalarRules`; the fields, their defaults and their order are
given here once.  An unknown field is passed over, a missing one takes its default, and a field of the
wrong kind spoils the whole.
-/

namespace DecoderForge

/-- How a format's values are read. -/
structure ScalarRules (V : Type) where
  /-- The fields of a record, given the names it may have, in order. -/
  record? : List String → V → Option (List (String × V))
  flag? : V → Option Bool
  nat? : V → Option Nat
  text? : V → Option String
  texts? : V → Option (List String)
  /-- The word that chooses among constructors. -/
  word? : V → Option String
  /-- A table of values of any kind. -/
  table? : V → Option Json.Members
  /-- Whether the value stands for an absent one. -/
  isAbsent : V → Bool

namespace ScalarRules

variable {V : Type} (rules : ScalarRules V)

/-- A field of a record, or its default when it is missing. -/
def field {α : Type} (fields : List (String × V)) (name : String) (read : V → Option α)
    (default : α) : Option α :=
  match fields.lookup name with
  | some v => read v
  | none => some default

/-- A field that may stand for an absent value. -/
def optional {α : Type} (read : V → Option α) (v : V) : Option (Option α) :=
  if rules.isAbsent v then some none else (read v).map some

def endOfLine? (v : V) : Option EndOfLine :=
  match rules.word? v with
  | some "lf" => some .lf
  | some "crlf" => some .crlf
  | _ => none

def collision? (v : V) : Option CollisionPolicy :=
  match rules.word? v with
  | some "error" => some .error
  | some "disambiguate" => some .disambiguate
  | _ => none

def draft? (v : V) : Option Draft :=
  match rules.word? v with
  | some "draft4" => some .draft4
  | some "draft6" => some .draft6
  | some "draft7" => some .draft7
  | _ => none

def style? (v : V) : Option Style := do
  let fs ← rules.record? ["tab_width", "use_tabs", "single_quote", "end_of_line"] v
  let tabWidth ← field fs "tab_width" rules.nat? 2
  let useTabs ← field fs "use_tabs" rules.flag? false
  let singleQuote ← field fs "single_quote" rules.flag? true
  let endOfLine ← field fs "end_of_line" rules.endOfLine? .lf
  return { tabWidth, useTabs, singleQuote, endOfLine }

def validator? (v : V) : Option ValidatorOptions := do
  let fs ← rules.record? ["draft", "validate_formats", "engine"] v
  let draft ← field fs "draft" rules.draft? .draft7
  let validateFormats ← field fs "validate_formats" rules.flag? true
  let engine ← field fs "engine" rules.table? []
  return { draft, validateFormats, engine }

def naming? (v : V) : Option Naming := do
  let fs ← rules.record? ["acronyms"] v
  let acronyms ← field fs "acronyms" rules.texts? []
  return { acronyms }

def generate? (v : V) : Option GenerateOptions := do
  let fs ← rules.record? ["style", "validator", "decoder_name", "pack", "naming", "collision"] v
  let style ← field fs "style" rules.style? {}
  let validator ← field fs "validator" rules.validator? {}
  let decoderName ← field fs "decoder_name" (rules.optional rules.text?) none
  let pack ← field fs "pack" rules.flag? true
  let naming ← field fs "naming" rules.naming? {}
  let collision ← field fs "collision" rules.collision? .error
  return { style, validator, decoderName, pack, naming, collision }

def paths? (v : V) : Option Paths := do
  let fs ← rules.record? ["input", "output"] v
  let input ← field fs "input" (rules.optional rules.text?) none
  let output ← field fs "output" (rules.optional rules.text?) none
  return { input, output }

def config? (v : V) : Option Config := do
  let fs ← rules.record? ["generate", "paths"] v
  let generate ← field fs "generate" rules.generate? {}
  let paths ← field fs "paths" rules.paths? {}
  return { generate, paths }

end ScalarRules

/-! ## JSON -/

namespace Json

/-- The strings of a list that holds nothing else. -/
def strings? : List Json → Option (List String)
  | [] => some []
  | .str s :: rest => (strings? rest).map (s :: ·)
  | _ :: _ => none

/-- The fields of a record: an object, or a list with the fields in order. -/
def record? (names : List String) : Json → Option Members
  | .obj members => some members
  | .arr items => if items.length ≤ names.length then some (names.zip items) else none
  | _ => none

/-- A constructor's word: a string, or an object with that only member and nothing in it. -/
def word? : Json → Option String
  | .str s => some s
  | .obj [(s, .null)] => some s
  | _ => none

/-- JSON says exactly what it means: each kind of value is read from that kind alone. -/
def scalarRules : ScalarRules Json where
  record? := record?
  flag? := fun
    | .bool b => some b
    | _ => none
  nat? := asNat?
  text? := asString?
  texts? := fun
    | .arr items => strings? items
    | _ => none
  word? := word?
  table? := asMembers?
  isAbsent := fun
    | .null => true
    | _ => false

end Json

end DecoderForge
