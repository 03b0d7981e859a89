import DecoderForge.Module.Entry
import DecoderForge.Validation.Binding

/-!
# DecoderForge — the plan of a run

Before anything is written every definition is named and its strategy chosen: a compiled validator where
one is asked for and can be had, the engine otherwise.

* `Plan.ofSchema` — the plan for a schema.
* `Plan.decoders`, `Plan.imports`, `Plan.pending` — what follows from it.
-/

namespace DecoderForge

/-- A file to be written. -/
structure PendingFile where
  path : String
  content : String
deriving DecidableEq, Repr

/-- A definition with the source of its validator, if it gets one of its own. -/
structure PlannedDecoder where
  definition : Definition
  source : Option String

namespace PlannedDecoder

/-- The decoder of the definition. -/
def entry (p : PlannedDecoder) : DecoderEntry :=
  match p.source with
  | some _ => .precompiled p.definition (validatorIdent p.definition.name)
  | none => .pointerLookup p.definition

/-- The line that imports the validator. -/
def importLine? (style : Style) (p : PlannedDecoder) : Option String :=
  p.source.map fun _ =>
    "import " ++ validatorIdent p.definition.name ++ " from "
      ++ style.quote ("./" ++ validatorFile p.definition.name) ++ ";"

/-- The file of the validator. -/
def pendingFile? (p : PlannedDecoder) : Option PendingFile :=
  p.source.map fun text => ⟨validatorFile p.definition.name, text⟩

end PlannedDecoder

/-- What a run generates, before it is laid out as text. -/
structure Plan where
  definitions : Definitions
  planned : List PlannedDecoder

namespace Plan

/-- The schema with nothing but its definitions. -/
def schema (p : Plan) : Json := p.definitions.toSchema

/-- One decoder per definition, in order. -/
def decoders (p : Plan) : List DecoderEntry := p.planned.map PlannedDecoder.entry

/-- The lines that import validators. -/
def imports (p : Plan) (style : Style) : List String := p.planned.filterMap (PlannedDecoder.importLine? style)

/-- The files of validators, by their names in the output folder. -/
def pending (p : Plan) : List PendingFile := p.planned.filterMap PlannedDecoder.pendingFile?

/-- Whether some decoder needs the engine. -/
def usesLookup (p : Plan) : Bool := p.decoders.any DecoderEntry.isPointerLookup

/-- The source of a validator, where validators are compiled ahead, the definition has one and it can be
compiled. -/
def sourceOf? (compiler : ValidatorCompiler) (mode : Mode) (schema : Json) (d : Definition) :
    Option String :=
  match mode with
  | .noPack => none
  | .pack =>
    (compiler.bind schema d.pointer).bind fun b => (compiler.standaloneSource schema b).toOption

/-- The plan for a schema. -/
def ofSchema (compiler : ValidatorCompiler) (o : GenerateOptions) (schema : Json) :
    Except GenerateError Plan := do
  let definitions ← Definitions.ofSchema schema
  let named ← definitions.enumerate o.naming o.collision
  let reduced := definitions.toSchema
  return ⟨definitions, named.map fun d => ⟨d, sourceOf? compiler o.mode reduced d⟩⟩

end Plan

end DecoderForge
