import DecoderForge.Name
import DecoderForge.Standalone.Piece

/-!
# DecoderForge — validator code of keywords

Each keyword of a schema contributes a piece to the body of the schema's function.  `body` puts the
pieces together in a fixed order; a schema with `$ref` is nothing but that reference, and a keyword
that is neither known nor an annotation has no code.
-/

namespace DecoderForge.Standalone

open Layout (Call)

/-- Keywords that have code. -/
def supportedKeywords : List String :=
  ["$ref", "type", "enum", "const",
    "minimum", "maximum", "exclusiveMinimum", "exclusiveMaximum", "multipleOf",
    "minLength", "maxLength", "pattern",
    "items", "additionalItems", "contains", "minItems", "maxItems", "uniqueItems",
    "properties", "required", "additionalProperties", "patternProperties",
    "propertyNames", "minProperties", "maxProperties", "dependencies",
    "allOf", "anyOf", "oneOf", "not", "if", "then", "else"]

/-- Keywords that only annotate. -/
def ignoredKeywords : List String :=
  ["title", "description", "$id", "id", "$schema", "$comment", "default",
    "examples", "definitions", "readOnly", "writeOnly", "deprecated",
    "contentMediaType", "contentEncoding", "tsType", "tsEnumNames"]

/-- Whether a keyword is passed over or has code.  With formats in force `format` has neither. -/
def isKnown (validateFormats : Bool) (keyword : String) : Bool :=
  supportedKeywords.contains keyword || ignoredKeywords.contains keyword
    || keyword.startsWith "x-" || (keyword == "format" && !validateFormats)

/-- Where a schema stands, and its members. -/
structure Site where
  members : Json.Members
  location : String

namespace Site

def get? (s : Site) (keyword : String) : Option Json := Json.Members.get? s.members keyword

/-- The fault of a keyword of this schema. -/
def invalid (s : Site) (keyword reason : String) : Fault := .invalid keyword s.location reason

/-- The location of a part of this schema. -/
def inside (s : Site) (path : String) : String := s.location ++ "/" ++ path

/-- A demand for the function of a part of this schema. -/
def part (s : Site) (path : String) (schema : Json) : Demand := .function schema (s.inside path)

/-- The strings of a list, if it holds nothing else. -/
def strings (s : Site) (keyword : String) (items : List Json) : Except Fault (List String) :=
  match items with
  | [] => .ok []
  | .str t :: rest => (s.strings keyword rest).map (t :: ·)
  | _ :: _ => .error (s.invalid keyword "expected strings")

/-- A limit that is a natural number. -/
def count (s : Site) (keyword : String) : Except Fault (Option Nat) :=
  match s.get? keyword with
  | none => .ok none
  | some v =>
    match v.asNat? with
    | some n => .ok (some n)
    | none => .error (s.invalid keyword "expected a non-negative integer")

/-- The flag of a keyword; anything but `true` counts as false. -/
def flag (s : Site) (keyword : String) : Bool :=
  match s.get? keyword with
  | some (.bool b) => b
  | _ => false

end Site

/-! ## Type and constants -/

def jsonTypes : List String := ["null", "boolean", "object", "array", "number", "integer", "string"]

/-- The condition under which data has a type. -/
def typeCondition (name : String) : String :=
  match name with
  | "null" => "data === null"
  | "boolean" => "typeof data === \"boolean\""
  | "object" => "isObject(data)"
  | "array" => "Array.isArray(data)"
  | "number" => "typeof data === \"number\""
  | "integer" => "(typeof data === \"number\" && data % 1 === 0 && !isNaN(data))"
  | _ => "typeof data === \"string\""

/-- The types that `type` names. -/
def typeNames (s : Site) (value : Json) : Except Fault (List String) :=
  match value with
  | .str name => .ok [name]
  | .arr items => s.strings "type" items
  | _ => .error (s.invalid "type" "expected a string or array")

def typePiece (s : Site) : Piece :=
  match s.get? "type" with
  | none => .empty
  | some value => .ofExcept do
    let names ← typeNames s value
    match names.find? fun n => !jsonTypes.contains n with
    | some n => throw (s.invalid "type" ("unknown type '" ++ n ++ "'"))
    | none =>
      return .ofCalls (failWhen
        ("!(" ++ String.intercalate " || " (names.map typeCondition) ++ ")")
        ("should be " ++ String.intercalate "," names))

def enumPiece (s : Site) : Piece :=
  match s.get? "enum" with
  | none => .empty
  | some values =>
    .ask (.constant values.compact) fun c =>
      failWhen ("!" ++ constantName c ++ ".some(function (v) \x7b return equal(data, v); \x7d)")
        "should be equal to one of the allowed values"

def constPiece (s : Site) : Piece :=
  match s.get? "const" with
  | none => .empty
  | some value =>
    .ask (.constant value.compact) fun c =>
      failWhen ("!equal(data, " ++ constantName c ++ ")") "should be equal to constant"

/-! ## Numbers -/

/-- The bound that a keyword gives.  A flag in place of an exclusive bound is none. -/
def bound (s : Site) (keyword : String) : Except Fault (Option Json.Number) :=
  match s.get? keyword with
  | none => .ok none
  | some (.num n) => .ok (some n)
  | some (.bool _) =>
    if keyword.startsWith "exclusive" then .ok none
    else .error (s.invalid keyword "expected a number")
  | some _ => .error (s.invalid keyword "expected a number")

/-- The lines for a bound that excludes itself, or does not. -/
def lowerLines (exclusive : Bool) : Option Json.Number → List Call
  | none => []
  | some n =>
    if exclusive then failWhen ("data <= " ++ n.toText) ("should be > " ++ n.toText)
    else failWhen ("data < " ++ n.toText) ("should be >= " ++ n.toText)

def upperLines (exclusive : Bool) : Option Json.Number → List Call
  | none => []
  | some n =>
    if exclusive then failWhen ("data >= " ++ n.toText) ("should be < " ++ n.toText)
    else failWhen ("data > " ++ n.toText) ("should be <= " ++ n.toText)

def multipleLines (s : Site) : Option Json.Number → Except Fault (List Call)
  | none => .ok []
  | some n =>
    if n.compare (.int 0) == .gt then
      .ok (failWhen ("!Number.isInteger(data / " ++ n.toText ++ ")")
        ("should be multiple of " ++ n.toText))
    else .error (s.invalid "multipleOf" "must be greater than 0")

def numericPiece (s : Site) : Piece :=
  Piece.wrap "if (typeof data === \"number\") \x7b" "\x7d" <| .ofExcept do
    let min ← bound s "minimum"
    let max ← bound s "maximum"
    let above ← bound s "exclusiveMinimum"
    let below ← bound s "exclusiveMaximum"
    let multiple ← multipleLines s (← bound s "multipleOf")
    return .ofCalls (lowerLines (s.flag "exclusiveMinimum") min
      ++ upperLines (s.flag "exclusiveMaximum") max
      ++ lowerLines true above ++ upperLines true below ++ multiple)

/-! ## Strings -/

/-- The constant for a pattern. -/
def patternConstant (pattern : String) : Demand :=
  .constant ("new RegExp(" ++ stringLiteral pattern ++ ")")

/-- The lines for limits on the length of a string. -/
def lengthLines (min max : Option Nat) : List Call :=
  if min.isNone && max.isNone then []
  else
    .line "var length = Array.from(data).length;" ::
      (match min with
        | none => []
        | some n => failWhen ("length < " ++ toString n)
          ("should NOT be shorter than " ++ toString n ++ " characters"))
      ++ (match max with
        | none => []
        | some n => failWhen ("length > " ++ toString n)
          ("should NOT be longer than " ++ toString n ++ " characters"))

def patternPiece (s : Site) : Piece :=
  match s.get? "pattern" with
  | none => .empty
  | some (.str pattern) =>
    .ask (patternConstant pattern) fun c =>
      failWhen ("!" ++ constantName c ++ ".test(data)")
        ("should match pattern \"" ++ pattern ++ "\"")
  | some _ => .ofFault (s.invalid "pattern" "expected a string")

def stringPiece (s : Site) : Piece :=
  Piece.wrap "if (typeof data === \"string\") \x7b" "\x7d" <| .ofExcept do
    let min ← s.count "minLength"
    let max ← s.count "maxLength"
    return (Piece.ofCalls (lengthLines min max)).append (patternPiece s)

/-! ## Arrays -/

/-- Calls a function on an item. -/
def itemCall (f : Nat) (index path : String) : String :=
  functionName f ++ "(data[" ++ index ++ "], path + " ++ path ++ ", errors)"

/-- Calls a function on every item from a position on. -/
def itemsFrom (start f : Nat) : List Call :=
  [opens ("for (var i = " ++ toString start ++ "; i < data.length; i++)"),
    invalidUnless (itemCall f "i" "\"[\" + i + \"]\""), closes]

/-- The pieces for the items of a tuple from position `i` on. -/
def tuplePieces (s : Site) (i : Nat) : List Json → List Piece
  | [] => []
  | sub :: rest =>
    let n := toString i
    .ask (s.part ("items/" ++ n) sub) (fun f =>
      [.line ("if (data.length > " ++ n ++ " && !" ++ itemCall f n ("\"[" ++ n ++ "]\"")
        ++ ") valid = false;")]) :: tuplePieces s (i + 1) rest

/-- The piece for the items behind a tuple. -/
def additionalItemsPiece (s : Site) (length : Nat) : Piece :=
  match s.get? "additionalItems" with
  | none | some (.bool true) => .empty
  | some (.bool false) =>
    .ofCalls (failWhen ("data.length > " ++ toString length)
      ("should NOT have more than " ++ toString length ++ " items"))
  | some rest => .ask (s.part "additionalItems" rest) (itemsFrom length)

def itemsPiece (s : Site) : Piece :=
  match s.get? "items" with
  | none => .empty
  | some (.arr tuple) =>
    (Piece.concat (tuplePieces s 0 tuple)).append (additionalItemsPiece s tuple.length)
  | some items => .ask (s.part "items" items) (itemsFrom 0)

def containsPiece (s : Site) : Piece :=
  match s.get? "contains" with
  | none => .empty
  | some sub =>
    .ask (s.part "contains" sub) fun f =>
      failWhen ("!data.some(function (item, i) \x7b return " ++ functionName f
          ++ "(item, path + \"[\" + i + \"]\", []); \x7d)")
        "should contain a valid item"

/-- The lines for limits on a number of things. -/
def countLines (size things : String) (min max : Option Nat) : List Call :=
  (match min with
    | none => []
    | some n => failWhen (size ++ " < " ++ toString n)
      ("should NOT have fewer than " ++ toString n ++ " " ++ things))
  ++ (match max with
    | none => []
    | some n => failWhen (size ++ " > " ++ toString n)
      ("should NOT have more than " ++ toString n ++ " " ++ things))

def uniqueLines (s : Site) : List Call :=
  if s.flag "uniqueItems" then failWhen "!uniqueItems(data)" "should NOT have duplicate items" else []

def arrayPiece (s : Site) : Piece :=
  Piece.wrap "if (Array.isArray(data)) \x7b" "\x7d" <| .ofExcept do
    let min ← s.count "minItems"
    let max ← s.count "maxItems"
    return .concat [itemsPiece s, containsPiece s,
      .ofCalls (countLines "data.length" "items" min max ++ uniqueLines s)]

/-! ## Objects -/

def requiredPiece (s : Site) : Piece :=
  match s.get? "required" with
  | none => .empty
  | some (.arr items) => .ofExcept do
    let names ← s.strings "required" items
    return .ofCalls (names.flatMap fun name =>
      failWhen ("!hasOwn(data, " ++ stringLiteral name ++ ")")
        ("should have required property '" ++ name ++ "'"))
  | some _ => .ofFault (s.invalid "required" "expected an array")

def propertyCountPiece (s : Site) : Piece := .ofExcept do
  let min ← s.count "minProperties"
  let max ← s.count "maxProperties"
  return .ofCalls (countLines "Object.keys(data).length" "properties" min max)

/-- What a known property adds to the path. -/
def propertySegment (name : String) : String :=
  if isPlainIdentifier name.toList then stringLiteral ("." ++ name)
  else stringLiteral ("[" ++ stringLiteral name ++ "]")

/-- The members of a keyword that has to be an object, empty when it is absent. -/
def objectKeyword (s : Site) (keyword : String) : Except Fault Json.Members :=
  match s.get? keyword with
  | none => .ok []
  | some (.obj members) => .ok members
  | some _ => .error (s.invalid keyword "expected an object")

def propertyPiece (s : Site) (property : String × Json) : Piece :=
  let key := stringLiteral property.1
  .ask (s.part ("properties/" ++ property.1) property.2) fun f =>
    [.line ("if (hasOwn(data, " ++ key ++ ") && !" ++ functionName f ++ "(data[" ++ key ++ "], path + "
      ++ propertySegment property.1 ++ ", errors)) valid = false;")]

/-- What becomes of properties that are not named. -/
inductive Additional where
  | allowed
  | forbidden
  | checked (schema : Json)

def additionalOf (s : Site) : Additional :=
  match s.get? "additionalProperties" with
  | none | some (.bool true) => .allowed
  | some (.bool false) => .forbidden
  | some sub => .checked sub

/-- Demands of the loop over properties: two for each pattern, one for a schema of additional
properties, one for names, and one for the list of known names. -/
def loopDemands (s : Site) (known : List String) (patterns : Json.Members) (additional : Additional)
    (names : Option Json) : List Demand :=
  patterns.flatMap (fun p => [patternConstant p.1, s.part ("patternProperties/" ++ p.1) p.2])
    ++ (match additional with
      | .checked sub => [s.part "additionalProperties" sub]
      | _ => [])
    ++ (match names with
      | some sub => [s.part "propertyNames" sub]
      | none => [])
    ++ (match additional with
      | .allowed => []
      | _ => [.constant (Json.arr (known.map .str)).compact])

/-- Calls a function on the property at `key`. -/
def propertyCall (f : Nat) : Call :=
  invalidUnless (functionName f ++ "(data[key], propPath(path, key), errors)")

/-- The lines for patterns, given two numbers for each. -/
def patternLines : List Nat → List Call
  | c :: f :: rest =>
    [opens ("if (" ++ constantName c ++ ".test(key))"), .line "matched = true;", propertyCall f, closes]
      ++ patternLines rest
  | _ => []

/-- The lines for a property that is neither known nor matched. -/
def additionalLines (known : Nat) (body : List Call) : List Call :=
  opens ("if (!matched && " ++ constantName known ++ ".indexOf(key) === -1)") :: body ++ [closes]

/-- The loop over properties. -/
def loopLines (patternCount : Nat) (additional : Additional) (hasNames : Bool) (ns : List Nat) :
    List Call :=
  let forPatterns := ns.take (2 * patternCount)
  let ns := ns.drop (2 * patternCount)
  let (forAdditional, ns) := match additional with
    | .checked _ => (ns.head?, ns.tail)
    | _ => (none, ns)
  let (forNames, ns) := if hasNames then (ns.head?, ns.tail) else (none, ns)
  [opens "for (var key in data)", .line "if (!hasOwn(data, key)) continue;"]
    ++ (match forNames with
      | some f => failWhen ("!" ++ functionName f ++ "(key, path, [])") "should have valid property names"
      | none => [])
    ++ [.line "var matched = false;"]
    ++ patternLines forPatterns
    ++ (match additional, forAdditional with
      | .allowed, _ => []
      | .checked _, some f => additionalLines (ns.headD 0) [propertyCall f]
      | _, _ => additionalLines (ns.headD 0) (failLines "should NOT have additional properties"))
    ++ [closes]

/-- The loop over properties, if anything is to be done in it. -/
def loopPiece (s : Site) (known : List String) (patterns : Json.Members) : Piece :=
  let additional := additionalOf s
  let names := s.get? "propertyNames"
  let needed := !patterns.isEmpty || names.isSome || (match additional with
    | .allowed => false
    | _ => true)
  if needed then
    ⟨loopDemands s known patterns additional names, loopLines patterns.length additional names.isSome⟩
  else .empty

def dependencyPiece (s : Site) (dependency : String × Json) : Piece :=
  let key := stringLiteral dependency.1
  match dependency.2 with
  | .arr items => .ofExcept do
    let others ← s.strings "dependencies" items
    return .ofCalls (opens ("if (hasOwn(data, " ++ key ++ "))") ::
      others.flatMap (fun other =>
        failWhen ("!hasOwn(data, " ++ stringLiteral other ++ ")")
          ("should have property " ++ other ++ " when property " ++ dependency.1 ++ " is present"))
      ++ [closes])
  | sub =>
    .ask (s.part ("dependencies/" ++ dependency.1) sub) fun f =>
      [.line ("if (hasOwn(data, " ++ key ++ ") && !" ++ functionName f
        ++ "(data, path, errors)) valid = false;")]

def dependenciesPiece (s : Site) : Piece := .ofExcept do
  let dependencies ← objectKeyword s "dependencies"
  return .concat (dependencies.map (dependencyPiece s))

/-- Properties by name, by pattern and the rest. -/
def propertiesPiece (s : Site) : Piece := .ofExcept do
  let properties ← objectKeyword s "properties"
  let named := Piece.concat (properties.map (propertyPiece s))
  let others := Piece.ofExcept do
    let patterns ← objectKeyword s "patternProperties"
    return loopPiece s (properties.map Prod.fst) patterns
  return named.append others

def objectPiece (s : Site) : Piece :=
  Piece.wrap "if (isObject(data)) \x7b" "\x7d" <|
    .concat [requiredPiece s, propertyCountPiece s, propertiesPiece s, dependenciesPiece s]

/-! ## Combinations -/

/-- Calls a function on the value itself. -/
def selfCall (f : Nat) (errors : String) : String := functionName f ++ "(data, path, " ++ errors ++ ")"

/-- Demands for the schemas of a list from position `i` on. -/
def listDemands (s : Site) (keyword : String) (i : Nat) : List Json → List Demand
  | [] => []
  | sub :: rest => s.part (keyword ++ "/" ++ toString i) sub :: listDemands s keyword (i + 1) rest

/-- A piece over the functions of a list of schemas; the list must not be empty. -/
def listPiece (s : Site) (keyword : String) (lines : List Nat → List Call) : Piece :=
  match s.get? keyword with
  | none => .empty
  | some (.arr (sub :: rest)) => ⟨listDemands s keyword 0 (sub :: rest), lines⟩
  | some _ => .ofFault (s.invalid keyword "expected a non-empty array of schemas")

def allOfPiece (s : Site) : Piece :=
  listPiece s "allOf" fun fs => fs.map fun f => invalidUnless (selfCall f "errors")

def anyOfPiece (s : Site) : Piece :=
  listPiece s "anyOf" fun fs =>
    [.line "var anyErrors = [];",
      opens ("if (!(" ++ String.intercalate " || " (fs.map fun f => selfCall f "anyErrors") ++ "))"),
      .line "Array.prototype.push.apply(errors, anyErrors);"]
      ++ failLines "should match some schema in anyOf" ++ [closes]

def oneOfPiece (s : Site) : Piece :=
  listPiece s "oneOf" fun fs =>
    [.line "var oneErrors = [];", .line "var matches = 0;"]
      ++ fs.map (fun f => .line ("if (" ++ selfCall f "oneErrors" ++ ") matches++;"))
      ++ [opens "if (matches !== 1)",
        .line "if (matches === 0) Array.prototype.push.apply(errors, oneErrors);"]
      ++ failLines "should match exactly one schema in oneOf" ++ [closes]

def notPiece (s : Site) : Piece :=
  match s.get? "not" with
  | none => .empty
  | some sub =>
    .ask (s.part "not" sub) fun f => failWhen (selfCall f "[]") "should NOT be valid"

/-- The branches of a condition; the condition itself counts only beside one of them. -/
def conditionPiece (s : Site) : Piece :=
  let branch (f : Nat) : List Call := [invalidUnless (selfCall f "errors")]
  let choose (f : Nat) (whenTrue whenFalse : List Call) : List Call :=
    opens ("if (" ++ selfCall f "[]" ++ ")") :: whenTrue ++ [.reopening "\x7d else \x7b"] ++ whenFalse
      ++ [closes]
  match s.get? "if", s.get? "then", s.get? "else" with
  | none, _, _ | some _, none, none => .empty
  | some c, some t, none =>
    ⟨[s.part "then" t, s.part "if" c], fun
      | [t, c] => choose c (branch t) []
      | _ => []⟩
  | some c, none, some e =>
    ⟨[s.part "else" e, s.part "if" c], fun
      | [e, c] => choose c [] (branch e)
      | _ => []⟩
  | some c, some t, some e =>
    ⟨[s.part "then" t, s.part "else" e, s.part "if" c], fun
      | [t, e, c] => choose c (branch t) (branch e)
      | _ => []⟩

/-! ## Bodies -/

/-- The body of the function for an object schema without `$ref`. -/
def keywordsPiece (validateFormats : Bool) (s : Site) : Piece :=
  match s.members.find? fun m => !isKnown validateFormats m.1 with
  | some (keyword, _) => .ofFault (.unsupported keyword s.location)
  | none =>
    .concat [.ofCalls [.line "var valid = true;"], typePiece s, enumPiece s, constPiece s,
      numericPiece s, stringPiece s, arrayPiece s, objectPiece s,
      allOfPiece s, anyOfPiece s, oneOfPiece s, notPiece s, conditionPiece s,
      .ofCalls [.line "return valid;"]]

/-- The body of the function for a schema at a location. -/
def body (validateFormats : Bool) (schema : Json) (location : String) : Piece :=
  match schema with
  | .bool true => .ofCalls [.line "return true;"]
  | .bool false =>
    .ofCalls [.line "errors.push(\x7b dataPath: path, message: \"boolean schema is false\" \x7d);",
      .line "return false;"]
  | .obj members =>
    let s : Site := ⟨members, location⟩
    match s.get? "$ref" with
    | some (.str r) =>
      .ask (.reference r) fun f => [.line ("return " ++ selfCall f "errors" ++ ";")]
    | some _ => .ofFault (s.invalid "$ref" "expected a string")
    | none => keywordsPiece validateFormats s
  | _ => .ofFault (.invalid "schema" location "expected an object or boolean")

end DecoderForge.Standalone
