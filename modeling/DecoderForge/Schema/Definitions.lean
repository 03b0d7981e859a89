import DecoderForge.Name
import DecoderForge.Schema.Pointer

/-!
# DecoderForge — the definitions of a schema

Of a schema only its `definitions` count.  They are enumerated in the order in which they are written,
each with the identifier that all its artifacts share.

* `Definitions.ofSchema` — the definitions of a schema; there must be one.
* `Definitions.enumerate` — each definition with its identifier.
-/

namespace DecoderForge

/-- One named subschema. -/
structure Definition where
  /-- The key in the map of definitions. -/
  key : String
  /-- The identifier of every artifact. -/
  name : String
  schema : Json
deriving Repr

/-- The reference to a definition, made from its key. -/
def Definition.pointer (d : Definition) : String := definitionPointer d.key

/-- The definitions of a schema, in order; there is at least one. -/
structure Definitions where
  entries : Json.Members
  entries_ne_nil : entries ≠ []

namespace Definitions

/-- The definitions of a schema; all else is left out. -/
def ofSchema (schema : Json) : Except GenerateError Definitions :=
  match schema.get? definitionsKey with
  | some (.obj (m :: rest)) => .ok ⟨m :: rest, by simp⟩
  | _ => .error .noDefinitions

/-- The schema with these definitions and nothing else. -/
def toSchema (d : Definitions) : Json := .obj [(definitionsKey, .obj d.entries)]

/-- Names entries in order, given the identifiers that are taken. -/
def enumerateFrom (naming : Naming) (table : NameTable) :
    Json.Members → Except GenerateError (List Definition)
  | [] => .ok []
  | (key, schema) :: rest => do
    let derived ← naming.derive key schema
    let (name, table) ← table.claim key derived
    let more ← enumerateFrom naming table rest
    return ⟨key, name, schema⟩ :: more

/-- All definitions in order with their identifiers; the first that gets none stops the enumeration. -/
def enumerate (d : Definitions) (naming : Naming) (policy : CollisionPolicy) :
    Except GenerateError (List Definition) :=
  enumerateFrom naming ⟨policy, []⟩ d.entries

end Definitions

end DecoderForge
