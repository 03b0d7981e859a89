import DecoderForge.Json.Printer
import DecoderForge.Schema.Definitions
import DecoderForge.Types.Expr

/-!
# DecoderForge — types of schemas

The type of a schema follows from its keywords and the types of the schemas inside it.  One level is a
function of the types one level down (`typeOf`); levels are tied together over the height of the
schema, and references that are no definition are followed into their target at most
`maxInline` deep.

* `Types.typeOf` — the type of a schema, given those of its parts.
* `Types.exprAt` — the type of a schema of a document.
-/

namespace DecoderForge

namespace Types

/-- Why a schema has no type. -/
inductive Fault where
  | invalidSchema (schema : Json)
  | referenceNoString
  | tooDeep (reference : String)
  | unresolved (reference : String)
  | unknownType (name : String)
  | naming (error : GenerateError)

/-- The wording of a fault. -/
def Fault.message : Fault → String
  | .invalidSchema schema => "Invalid schema: " ++ schema.compact
  | .referenceNoString => "$ref must be a string"
  | .tooDeep reference => "$ref nesting too deep at " ++ reference
  | .unresolved reference => "Unresolved $ref: " ++ reference
  | .unknownType name => "Unknown type '" ++ name ++ "'"
  | .naming error => error.message

/-- A type, or why there is none. -/
abbrev Result := Except Fault TypeExpr

/-- Each result in order, or the first fault. -/
def collect {α β : Type} (f : α → Except Fault β) : List α → Except Fault (List β)
  | [] => .ok []
  | a :: rest => do
    let b ← f a
    let bs ← collect f rest
    return b :: bs

/-! ## Comments -/

/-- A text with `*/` taken apart, so that it ends no comment. -/
def openComment (s : List Char) : List Char := Text.replaceAll ['*', '/'] ['*', '\\', '/'] s

/-- The lines of a schema's description. -/
def docLines? (schema : Json) : Option (List (List Char)) :=
  match schema.getString? "description" with
  | none => none
  | some description =>
    let text := Text.trim description.toList
    if text.isEmpty then none
    else some ((Text.lines (openComment text)).map (Text.dropRightWhile Text.isBlank))

/-! ## One level -/

/-- A constant as a type. -/
def literal (style : Style) : Json → TypeExpr
  | .str s => .word (style.quoteChars s.toList)
  | .num n => .ofString n.toText
  | .bool b => .ofString (if b then "true" else "false")
  | .null => .ofString "null"
  | _ => .unknown

/-- The names that `required` lists. -/
def requiredNames (schema : Json) : List String :=
  (((schema.get? "required").bind Json.asItems?).getD []).filterMap Json.asString?

/-- The type of all members that are not named: none when they are forbidden.

Beside named members it is `unknown`, as it has to hold of those too. -/
def indexType (style : Style) (rec : Json → Result) (schema : Json) (hasProperties : Bool) :
    Except Fault (Option TypeExpr) :=
  match schema.get? "additionalProperties" with
  | none | some (.bool true) => .ok (some .unknown)
  | additional => do
    let others ← match additional with
      | none | some (.bool _) => pure []
      | some sub => do pure [← rec sub]
    let patterns ← match (schema.get? "patternProperties").bind Json.asMembers? with
      | some patterns => collect (fun (p : String × Json) => rec p.2) patterns
      | none => pure []
    match others ++ patterns with
    | [] => return none
    | members => return some (if hasProperties then .unknown else .union style members)

/-- The member for one property. -/
def memberOf (rec : Json → Result) (required : List String) (property : String × Json) :
    Except Fault (MemberHead × TypeExpr) := do
  let type ← rec property.2
  return (⟨docLines? property.2, property.1, !required.contains property.1⟩, type)

/-- The members that `properties` names. -/
def propertiesOf (schema : Json) : Json.Members :=
  ((schema.get? "properties").bind Json.asMembers?).getD []

/-- An object type: one member per property in order, then the one for all others. -/
def objectType (style : Style) (rec : Json → Result) (schema : Json) : Result := do
  let properties := propertiesOf schema
  let members ← collect (memberOf rec (requiredNames schema)) properties
  let index ← indexType style rec schema (!properties.isEmpty)
  return .object members index

/-- An array or tuple type. -/
def arrayType (style : Style) (rec : Json → Result) (schema : Json) : Result :=
  match schema.get? "items" with
  | none => .ok (.array .unknown)
  | some (.arr items) => do
    let members ← collect rec items
    match schema.get? "additionalItems" with
    | some (.bool false) => return .tuple members none
    | none | some (.bool true) => return .tuple members (some .unknown)
    | some rest => do
      let e ← rec rest
      return .tuple members (some (e.parenthesize style))
  | some item => do
    let e ← rec item
    return .array (e.parenthesize style)

/-- The type for one word of `type`. -/
def namedType (style : Style) (rec : Json → Result) (schema : Json) (name : String) : Result :=
  match name with
  | "string" => .ok (.ofString "string")
  | "number" | "integer" => .ok (.ofString "number")
  | "boolean" => .ok (.ofString "boolean")
  | "null" => .ok (.ofString "null")
  | "array" => arrayType style rec schema
  | "object" => objectType style rec schema
  | other => .error (.unknownType other)

/-- The words of `type`; absent, they follow from the other keywords. -/
def typeNames (schema : Json) : List String :=
  match schema.get? "type" with
  | some (.str name) => [name]
  | some (.arr names) => names.filterMap Json.asString?
  | _ =>
    if (schema.get? "properties").isSome || (schema.get? "additionalProperties").isSome
        || (schema.get? "patternProperties").isSome || (schema.get? "required").isSome then
      ["object"]
    else if (schema.get? "items").isSome then ["array"]
    else []

/-- The type by `const`, else by `enum`, else by `type`; none when all are absent. -/
def baseType (style : Style) (rec : Json → Result) (schema : Json) :
    Except Fault (Option TypeExpr) :=
  match schema.get? "const" with
  | some value => .ok (some (literal style value))
  | none =>
    match (schema.get? "enum").bind Json.asItems? with
    | some values => .ok (some (.union style (values.map (literal style))))
    | none =>
      match typeNames schema with
      | [] => .ok none
      | names => do
        let members ← collect (namedType style rec schema) names
        return some (.union style members)

/-- The types of a list of schemas, each in parentheses where it needs them. -/
def memberTypes (style : Style) (rec : Json → Result) (schema : Json) (keyword : String) :
    Except Fault (Option (List TypeExpr)) :=
  match (schema.get? keyword).bind Json.asItems? with
  | none => .ok none
  | some subs => do
    let members ← collect (fun sub => (rec sub).map (TypeExpr.parenthesize style)) subs
    return some members

/-- The part that `anyOf` or `oneOf` contributes. -/
def choiceType (style : Style) (rec : Json → Result) (schema : Json) (keyword : String) :
    Except Fault (List TypeExpr) := do
  match ← memberTypes style rec schema keyword with
  | none => return []
  | some members => return [(TypeExpr.union style members).parenthesize style]

/-- All parts of an object schema without `$ref`, to be met. -/
def partsOf (style : Style) (rec : Json → Result) (schema : Json) :
    Except Fault (List TypeExpr) := do
  let base ← baseType style rec schema
  let all ← memberTypes style rec schema "allOf"
  let any ← choiceType style rec schema "anyOf"
  let one ← choiceType style rec schema "oneOf"
  return base.toList ++ all.getD [] ++ any ++ one

/-- The parts as one type. -/
def meetOf (style : Style) : List TypeExpr → TypeExpr
  | [] => .unknown
  | [e] => e.strip style
  | es => .meet (es.map (TypeExpr.parenthesize style))

/-- The type of a schema, given those of references and of the schemas inside it. -/
def typeOf (style : Style) (reference : String → Result) (rec : Json → Result) (schema : Json) :
    Result :=
  match schema with
  | .bool true => .ok .unknown
  | .bool false => .ok .never
  | .obj members =>
    match Json.Members.get? members "$ref" with
    | some (.str r) => reference r
    | some _ => .error .referenceNoString
    | none => (partsOf style rec schema).map (meetOf style)
  | other => .error (.invalidSchema other)

/-- The type by a hint, else by the rest of the schema. -/
def hinted (rest : Json → Result) (schema : Json) : Result :=
  match schema.getString? typeHintKey with
  | some hint => .ok (.ofString hint)
  | none => rest schema

/-! ## All levels -/

/-- The type of a schema, hints included; `fuel` bounds its height. -/
def levels (style : Style) (reference : String → Result) : Nat → Json → Result
  | 0, schema => hinted (typeOf style reference fun s => .error (.invalidSchema s)) schema
  | fuel + 1, schema => hinted (typeOf style reference (levels style reference fuel)) schema

/-- The schema that is compiled and the names that references to its definitions stand for. -/
structure Scope where
  root : Json
  style : Style
  /-- Reference and name; the first entry for a reference counts. -/
  names : List (String × String)

/-- How deep references may be followed into their targets. -/
def maxInline : Nat := 32

/-- The type of a reference: the name of a definition, or the type of the target, followed into it at
most `remaining` references deep. -/
def Scope.reference (scope : Scope) : Nat → String → Result
  | remaining, r =>
    if r == "#" then .ok .unknown
    else
      match scope.names.lookup r with
      | some name => .ok (.ofString name)
      | none =>
        match remaining with
        | 0 => .error (.tooDeep r)
        | remaining + 1 =>
          match resolveLocal? scope.root r with
          | none => .error (.unresolved r)
          | some target =>
            levels scope.style (scope.reference remaining) target.height target

/-- The type of a schema of the document. -/
def Scope.expr (scope : Scope) (schema : Json) : Result :=
  levels scope.style (scope.reference maxInline) schema.height schema

/-- The type of a schema of the document, the hint on the schema itself left out of account. -/
def Scope.exprWithoutHint (scope : Scope) (schema : Json) : Result :=
  typeOf scope.style (scope.reference maxInline) scope.expr schema

/-- The object type of a schema of the document. -/
def Scope.objectType (scope : Scope) (schema : Json) : Result :=
  Types.objectType scope.style scope.expr schema

end Types

end DecoderForge
