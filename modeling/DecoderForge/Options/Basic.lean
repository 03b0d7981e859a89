import DecoderForge.Name
import DecoderForge.Style

/-!
# DecoderForge — options of a generation run

The options fix the layout of the generated text, the validation engine, the naming of definitions and
whether validators are compiled ahead of time.
-/

namespace DecoderForge

/-- The drafts of JSON Schema. -/
inductive Draft where
  | draft4
  | draft6
  | draft7
deriving DecidableEq, Repr, Inhabited

/-- How values are validated. -/
structure ValidatorOptions where
  draft : Draft := .draft7
  /-- Whether `format` is enforced. -/
  validateFormats : Bool := true
  /-- Options handed to the engine of the generated module. -/
  engine : Json.Members := []
deriving Repr

/-- The engine options of the generated module: formats are switched off there too, unless an option
already speaks of them. -/
def ValidatorOptions.engineOptions (o : ValidatorOptions) : Json :=
  if !o.validateFormats && !o.engine.contains "format" then
    .obj (o.engine.insert "format" (.bool false))
  else .obj o.engine

/-- Whether each definition gets a validator file, or all share an engine. -/
inductive Mode where
  | pack
  | noPack
deriving DecidableEq, Repr

/-- Options of a generation run. -/
structure GenerateOptions where
  style : Style := {}
  validator : ValidatorOptions := {}
  /-- Name of the registry class; absent, it is named for the output folder. -/
  decoderName : Option String := none
  pack : Bool := true
  naming : Naming := {}
  collision : CollisionPolicy := .error
deriving Repr

def GenerateOptions.mode (o : GenerateOptions) : Mode := if o.pack then .pack else .noPack

/-- Where a run reads and writes unless told otherwise. -/
structure Paths where
  input : Option String := none
  output : Option String := none
deriving DecidableEq, Repr

/-- The configuration of the program. -/
structure Config where
  generate : GenerateOptions := {}
  paths : Paths := {}
deriving Repr

end DecoderForge
