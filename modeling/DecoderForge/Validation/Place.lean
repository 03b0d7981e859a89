import DecoderForge.Json.Basic

/-!
# DecoderForge — where schemas hold schemas

* `SchemaPlace.ofKeyword` — in which way the value of a keyword holds schemas.
-/

namespace DecoderForge

/-- The ways in which a keyword holds schemas. -/
inductive SchemaPlace where
  /-- Not at all. -/
  | nowhere
  /-- The value is a schema. -/
  | whole
  /-- Every item is a schema. -/
  | items
  /-- The value is a schema, or every item is one. -/
  | wholeOrItems
  /-- Every member is a schema. -/
  | members
  /-- Every member that is no list is a schema. -/
  | membersOrNames
deriving DecidableEq, Repr

/-- In which way the value of a keyword holds schemas. -/
def SchemaPlace.ofKeyword (keyword : String) : SchemaPlace :=
  match keyword with
  | "not" | "if" | "then" | "else" | "contains" | "propertyNames" | "additionalItems"
  | "additionalProperties" => .whole
  | "allOf" | "anyOf" | "oneOf" => .items
  | "items" => .wholeOrItems
  | "properties" | "patternProperties" | "definitions" => .members
  | "dependencies" => .membersOrNames
  | _ => .nowhere

end DecoderForge
