import DecoderForge.Validation.Constraint
import DecoderForge.Validation.Document
import DecoderForge.Validation.Place

/-!
# DecoderForge — schemas as constraints

Each keyword of a schema that the draft knows is read as a constraint, in the order in which the keywords
stand; some look at their neighbours.  A reference takes the place of all other keywords.  A keyword whose
value has the wrong shape spoils the whole schema.

* `Constraint.ofSchema` — the constraint that a schema is, or what is wrong with it.
-/

namespace DecoderForge

/-- How schemas are read. -/
structure Dialect where
  draft : Draft := .draft7
  /-- Whether `format` counts. -/
  formats : Bool := true
deriving DecidableEq, Repr

namespace SchemaReading

/-- A constraint, or the wording of what is wrong with a schema. -/
abbrev Read := Except String Constraint

/-- The schemas in the value of a keyword, read as constraints. -/
inductive Part where
  | none
  | one (part : Read)
  | many (parts : List Read)
  | named (parts : List (String × Read))

namespace Part

/-- The schema that the value is. -/
def whole : Part → Read
  | .one part => part
  | _ => .ok .any

/-- The schemas that the items are. -/
def items : Part → Except String (List Constraint)
  | .many parts => parts.mapM id
  | _ => .ok []

/-- The schemas that the members are. -/
def members : Part → Except String (List (String × Constraint))
  | .named parts => parts.mapM fun (name, part) => part.map fun c => (name, c)
  | _ => .ok []

end Part

/-- What surrounds a keyword: the members of its schema and the schemas in them. -/
structure Surroundings where
  dialect : Dialect
  members : Json.Members
  parts : List (String × Part)

namespace Surroundings

def get? (s : Surroundings) (keyword : String) : Option Json := s.members.get? keyword

/-- The schemas in the value of a neighbour. -/
def part (s : Surroundings) (keyword : String) : Part := (s.parts.lookup keyword).getD .none

end Surroundings

/-! ## Shapes -/

def schemaFault : String := "Schema error"

def typeFault (v : Json) (t : TypeName) : String := Assertion.typeFault v t

/-- The strings of a list. -/
def strings : List Json → Except String (List String)
  | [] => .ok []
  | .str s :: rest => (strings rest).map (s :: ·)
  | v :: _ => .error (typeFault v .string)

/-- The strings that a value lists. -/
def stringList : Json → Except String (List String)
  | .arr items => strings items
  | v => .error (typeFault v .array)

/-- A limit on a count. -/
def limit (v : Json) (make : Nat → Assertion) : Read :=
  match v with
  | .num (.int n) =>
    if 0 ≤ n then .ok (.assert (make n.toNat))
    else .error (v.compact ++ " is less than the minimum of 0")
  | v => .error (typeFault v .integer)

/-- A limit on a number. -/
def bound (v : Json) (make : Json.Number → Assertion) : Read :=
  match v with
  | .num n => .ok (.assert (make n))
  | v => .error (typeFault v .number)

/-- The type that a word names. -/
def typeName (v : Json) : Except String TypeName :=
  match v with
  | .str word =>
    match TypeName.ofWord? word with
    | some t => .ok t
    | none => .error (v.compact ++ " is not one of "
        ++ (Json.arr (TypeName.all.map fun t => .str t.word)).compact)
  | v => .error (typeFault v .string)

/-! ## Keywords -/

/-- The types that `type` names. -/
def readType (draft : Draft) (v : Json) : Read :=
  match v with
  | .str word =>
    match TypeName.ofWord? word with
    | some t => .ok (.assert (.type draft [t]))
    | none => .error schemaFault
  | .arr items => (items.mapM typeName).map fun ts => .assert (.type draft ts)
  | v => .error (Assertion.typesFault v [.array, .string])

def readMultipleOf (v : Json) : Read :=
  match v with
  | .num n => .ok (.assert (.multipleOf n.toBinary64))
  | v => .error (typeFault v .number)

def readEnum (v : Json) : Read :=
  match v with
  | .arr values => .ok (.assert (.enum values))
  | v => .error (typeFault v .array)

def readPattern (v : Json) : Read :=
  match v with
  | .str text =>
    match Pattern.readPortable? text with
    | some node => .ok (.assert (.pattern text node))
    | none => .error (Assertion.formatFault v "regex")
  | v => .error (typeFault v .string)

/-- Constraints by pattern. -/
def readPatterns : List (String × Constraint) → Json.Members →
    Except String (List (Pattern.Node × Constraint))
  | (name, c) :: rest, members =>
    match Pattern.read? name.toList with
    | some node => (readPatterns rest members).map ((node, c) :: ·)
    | none => .error (Assertion.formatFault ((members.get? name).getD .null) "regex")
  | [], _ => .ok []

/-- The constraints of `patternProperties`. -/
def patternedParts (s : Surroundings) : Except String (List (Pattern.Node × Constraint)) :=
  match s.get? "patternProperties" with
  | none => .ok []
  | some (.obj members) => do
    let parts ← (s.part "patternProperties").members
    readPatterns parts members
  | some _ => .error schemaFault

/-- The constraints of `properties`. -/
def knownParts (s : Surroundings) : Except String (List (String × Constraint)) :=
  match s.get? "properties" with
  | none => .ok []
  | some (.obj _) => (s.part "properties").members
  | some _ => .error schemaFault

/-- Whether `additionalProperties` speaks for all properties. -/
def ruledByAdditional (s : Surroundings) : Bool :=
  match s.get? "additionalProperties" with
  | some (.bool false) | some (.obj _) => true
  | _ => false

/-- The constraint of `additionalProperties`, which covers `properties` and `patternProperties`. -/
def readAdditionalProperties (s : Surroundings) (v : Json) : Read := do
  let patterned ← patternedParts s
  match v with
  | .bool true => return .any
  | .bool false =>
    if (s.get? "properties").isNone && (s.get? "patternProperties").isNone then
      return .assert .noProperties
    return .onlyProperties (← knownParts s) patterned
  | _ =>
    let others ← (s.part "additionalProperties").whole
    return .allProperties (← knownParts s) patterned others

/-- The constraint of `additionalItems`, which counts beside a list of schemas for items. -/
def readAdditionalItems (s : Surroundings) (v : Json) : Read :=
  match s.get? "items", v with
  | some (.arr items), .bool false => .ok (.assert (.noItemsBeyond items.length))
  | some (.arr items), .obj _ => (s.part "additionalItems").whole.map (.itemsBeyond items.length)
  | some (.bool false), _ => .ok .never
  | _, _ => .ok .any

def readItems (s : Surroundings) (v : Json) : Read :=
  match v with
  | .arr _ => (s.part "items").items.map .tuple
  | .obj _ | .bool false => (s.part "items").whole.map .items
  | _ => .ok .any

/-- The constraints of `dependencies`; a list names properties that are required too. -/
def readDependencies : Json.Members → List (String × Read) →
    Except String (List (String × Constraint))
  | (name, .arr items) :: rest, _ :: parts => do
    let names ← strings items
    let more ← readDependencies rest parts
    return (name, .assert (.required names)) :: more
  | (name, _) :: rest, (_, part) :: parts => do
    let c ← part
    let more ← readDependencies rest parts
    return (name, c) :: more
  | _, _ => .ok []

/-- The constraint of `if` with its two branches. -/
def readCondition (s : Surroundings) : Read :=
  if (s.get? "then").isNone && (s.get? "else").isNone then .ok .any
  else do
    let test ← (s.part "if").whole
    let yes ← (s.part "then").whole
    let no ← (s.part "else").whole
    return .cond test yes no

/-- The constraint of a media type, under an encoding if there is one. -/
def readMediaType (s : Surroundings) (v : Json) : Read :=
  match v with
  | .str media =>
    if media != "application/json" then .ok .any
    else
      match s.get? "contentEncoding" with
      | none => .ok (.assert .jsonText)
      | some (.str encoding) => .ok (if encoding == "base64" then .assert .base64OfJsonText else .any)
      | some e => .error (typeFault e .string)
  | v => .error (typeFault v .string)

/-- The constraint of an encoding without a media type. -/
def readEncoding (s : Surroundings) (v : Json) : Read :=
  if (s.get? "contentMediaType").isSome then .ok .any
  else
    match v with
    | .str encoding => .ok (if encoding == "base64" then .assert .base64 else .any)
    | v => .error (typeFault v .string)

def readFormat (d : Dialect) (v : Json) : Read :=
  if !d.formats then .ok .any
  else
    match v with
    | .str name =>
      .ok (match Format.ofName? d.draft name with
        | some f => .assert (.format f)
        | none => .any)
    | v => .error (typeFault v .string)

/-- Whether a flag beside a limit of draft 4 excludes the limit itself. -/
def isExclusive (s : Surroundings) (keyword : String) : Bool :=
  s.dialect.draft == .draft4 && s.get? keyword == some (.bool true)

/-- The list of constraints that `allOf`, `anyOf` or `oneOf` holds. -/
def readList (s : Surroundings) (keyword : String) (v : Json) (make : List Constraint → Constraint) :
    Read :=
  match v with
  | .arr _ => (s.part keyword).items.map make
  | v => .error (typeFault v .array)

/-- Whether a draft knows a keyword. -/
def isKeywordOf (draft : Draft) (keyword : String) : Bool :=
  match keyword with
  | "if" => draft == .draft7
  | "const" | "contains" | "propertyNames" | "contentMediaType" | "contentEncoding"
  | "exclusiveMinimum" | "exclusiveMaximum" => draft != .draft4
  | _ => true

/-- The constraint of a keyword with its value; one that says nothing allows everything. -/
def readKeyword (s : Surroundings) (keyword : String) (v : Json) : Read :=
  if !isKeywordOf s.dialect.draft keyword then .ok .any
  else
    match keyword with
    | "type" => readType s.dialect.draft v
    | "enum" => readEnum v
    | "const" => .ok (.assert (.const v))
    | "minimum" => bound v fun n => .atLeast n (isExclusive s "exclusiveMinimum")
    | "maximum" => bound v fun n => .atMost n (isExclusive s "exclusiveMaximum")
    | "exclusiveMinimum" => bound v fun n => .atLeast n true
    | "exclusiveMaximum" => bound v fun n => .atMost n true
    | "multipleOf" => readMultipleOf v
    | "minLength" => limit v .minLength
    | "maxLength" => limit v .maxLength
    | "pattern" => readPattern v
    | "format" => readFormat s.dialect v
    | "minItems" => limit v .minItems
    | "maxItems" => limit v .maxItems
    | "uniqueItems" => .ok (if v == .bool true then .assert .uniqueItems else .any)
    | "items" => readItems s v
    | "additionalItems" => readAdditionalItems s v
    | "contains" => (s.part "contains").whole.map .contains
    | "required" => (stringList v).map fun names => .assert (.required names)
    | "minProperties" => limit v .minProperties
    | "maxProperties" => limit v .maxProperties
    | "properties" => if ruledByAdditional s then .ok .any else (knownParts s).map .properties
    | "patternProperties" => if ruledByAdditional s then .ok .any else (patternedParts s).map .patterns
    | "additionalProperties" => readAdditionalProperties s v
    | "propertyNames" =>
      match v with
      | .obj _ => (s.part "propertyNames").whole.map .propertyNames
      | .bool false => .ok (.assert .noPropertyNames)
      | _ => .ok .any
    | "dependencies" =>
      match v, s.part "dependencies" with
      | .obj members, .named parts => (readDependencies members parts).map .dependencies
      | _, _ => .error schemaFault
    | "allOf" => readList s "allOf" v .all
    | "anyOf" => readList s "anyOf" v .anyOf
    | "oneOf" => readList s "oneOf" v .oneOf
    | "not" => (s.part "not").whole.map (.not v)
    | "if" => readCondition s
    | "contentMediaType" => readMediaType s v
    | "contentEncoding" => readEncoding s v
    | _ => .ok .any

end SchemaReading

/-! ## Schemas -/

namespace Constraint

open SchemaReading

mutual

/-- The constraint that a schema is, or what is wrong with it; `scope` is the URL around the schema. -/
def ofSchema (d : Dialect) (scope : Url) : Json → Read
  | .bool true => .ok .any
  | .bool false => .ok .never
  | .obj members =>
    match Document.enter d.draft scope (.obj members) with
    | .error f => .error f.message
    | .ok scope =>
      match Json.Members.get? members "$ref" with
      | some (.str target) =>
        match scope.join target with
        | .ok url => .ok (.reference url)
        | .error f => .error f.message
      | some v => .error (typeFault v .string)
      | none =>
        let s : Surroundings := ⟨d, members, partsOf d scope members⟩
        (members.mapM fun (keyword, v) => readKeyword s keyword v).map .all
  | v => .error (Assertion.typesFault v [.boolean, .object])

/-- The schemas in the values of keywords. -/
def partsOf (d : Dialect) (scope : Url) : List (String × Json) → List (String × Part)
  | [] => []
  | (keyword, v) :: rest =>
    let part := match SchemaPlace.ofKeyword keyword, v with
      | .whole, v => .one (ofSchema d scope v)
      | .items, .arr vs => .many (ofSchemas d scope vs)
      | .wholeOrItems, .arr vs => .many (ofSchemas d scope vs)
      | .wholeOrItems, v => .one (ofSchema d scope v)
      | .members, .obj members => .named (ofMembers d scope members)
      | .membersOrNames, .obj members => .named (ofMembers d scope members)
      | _, _ => .none
    (keyword, part) :: partsOf d scope rest

/-- Each item read as a schema. -/
def ofSchemas (d : Dialect) (scope : Url) : List Json → List Read
  | [] => []
  | v :: rest => ofSchema d scope v :: ofSchemas d scope rest

/-- Each member read as a schema. -/
def ofMembers (d : Dialect) (scope : Url) : List (String × Json) → List (String × Read)
  | [] => []
  | (name, v) :: rest => (name, ofSchema d scope v) :: ofMembers d scope rest

end

end Constraint

end DecoderForge
