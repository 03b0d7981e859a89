import DecoderForge.Plan
import DecoderForge.Registry.Conversion
import DecoderForge.Registry.Engine

/-!
# DecoderForge — registries of decoders

A registry decodes values by the names of definitions, as the generated module does.

* `Registry.ofSchema` — the registry for a schema.
* `Registry.decode` — validates a value and returns it.
* `Registry.decodeAs` — validates a value and converts it.
-/

namespace DecoderForge

/-- Why a value is not decoded. -/
inductive DecodeFault where
  | unknownDecoder (registry name : String)
  /-- The value has issues, or there is no validator and so none to name. -/
  | invalid (label : String) (issues : List Issue)
  | conversion (name reason : String)
deriving DecidableEq, Repr

namespace DecodeFault

/-- The wording of a fault. -/
def message : DecodeFault → String
  | .unknownDecoder registry name => "Unknown decoder " ++ registry ++ "." ++ name
  | .invalid label issues =>
    let details := String.intercalate ", " (issues.map Issue.text)
    "Error validating " ++ label ++ ": " ++ if details.isEmpty then "unknown" else details
  | .conversion name reason => "Error decoding " ++ name ++ ": " ++ reason

/-- The issues of the value. -/
def issues : DecodeFault → List Issue
  | .invalid _ issues => issues
  | _ => []

end DecodeFault

/-- A fault with the value that it concerns. -/
structure DecodeError where
  fault : DecodeFault
  json : Json

/-- How a decoder finds its validator. -/
inductive DecoderSource where
  | precompiled (validator : BoundValidator)
  | pointerLookup (pointer : String)

/-- A decoder of a registry. -/
structure RegistryEntry where
  name : String
  source : DecoderSource

/-- Named decoders over one schema. -/
structure Registry where
  name : String
  entries : List RegistryEntry
  engine : LazyEngine

namespace Registry

/-- The name of a registry for which no name is configured. -/
def defaultName : String := "Decoder"

/-- A decoder with its validator, which falls back to the engine where none can be bound. -/
def bindEntry (compiler : ValidatorCompiler) (schema : Json) (e : DecoderEntry) : RegistryEntry :=
  match e.strategy with
  | .pointerLookup pointer => ⟨e.name, .pointerLookup pointer⟩
  | .precompiled _ =>
    match compiler.bind schema e.pointer with
    | some b => ⟨e.name, .precompiled b⟩
    | none => ⟨e.name, .pointerLookup e.pointer⟩

/-- The registry of decoders chosen before. -/
def ofEntries (name : String) (schema : Json) (entries : List DecoderEntry) (o : ValidatorOptions) :
    Registry where
  name
  entries := entries.map (bindEntry (ValidatorCompiler.builtIn o) schema)
  engine := { schema, options := o }

/-- The registry for a schema. -/
def ofSchema (o : GenerateOptions) (schema : Json) : Except GenerateError Registry := do
  let plan ← Plan.ofSchema (ValidatorCompiler.builtIn o.validator) o schema
  return ofEntries (o.decoderName.getD defaultName) plan.schema plan.decoders o.validator

/-- The names of all decoders, in order. -/
def names (r : Registry) : List String := r.entries.map RegistryEntry.name

/-- The decoder of a name; of several the last. -/
def entry? (r : Registry) (name : String) : Option RegistryEntry :=
  r.entries.reverse.find? fun e => e.name == name

def contains (r : Registry) (name : String) : Bool := (r.entry? name).isSome

/-- Whether a decoder needs the engine. -/
def usesPointerLookup? (r : Registry) (name : String) : Option Bool :=
  (r.entry? name).map fun e =>
    match e.source with
    | .pointerLookup _ => true
    | .precompiled _ => false

/-- The validator of a decoder, and the registry afterwards. -/
def validatorOf (r : Registry) (e : RegistryEntry) : Option BoundValidator × Registry :=
  match e.source with
  | .precompiled b => (some b, r)
  | .pointerLookup pointer =>
    let (b, engine) := r.engine.validator pointer
    (b, { r with engine })

/-- The value, if a validator finds nothing wrong with it. -/
def check (label : String) (validator : Option BoundValidator) (v : Json) : Except DecodeError Json :=
  match validator with
  | none => .error ⟨.invalid label [], v⟩
  | some b => if b.accepts v then .ok v else .error ⟨.invalid label (b.issues v), v⟩

/-- Validates a value and returns it unchanged; also the registry afterwards. -/
def decode (r : Registry) (name : String) (v : Json) : Except DecodeError Json × Registry :=
  match r.entry? name with
  | none => (.error ⟨.unknownDecoder r.name name, v⟩, r)
  | some e =>
    let (validator, r) := r.validatorOf e
    (check e.name validator v, r)

/-- Validates a value and converts it; also the registry afterwards. -/
def decodeAs (r : Registry) (convert : Conversion α) (name : String) (v : Json) :
    Except DecodeError α × Registry :=
  let (decoded, r) := r.decode name v
  (decoded.bind fun v => (convert v).mapError fun reason => ⟨.conversion name reason, v⟩, r)

end Registry

end DecoderForge
