import DecoderForge.Validation.Assertion
import DecoderForge.Validation.Document
import DecoderForge.Validation.Place

/-!
# DecoderForge — well-formed schemas

Each draft says which values its keywords may have, everywhere inside a schema.

* `Draft.describes` — whether a value is a schema of the draft.
-/

namespace DecoderForge

namespace Draft

/-! ## Shapes of values -/

def isText : Json → Bool
  | .str _ => true
  | _ => false

def isFlag : Json → Bool
  | .bool _ => true
  | _ => false

def isNumber : Json → Bool
  | .num _ => true
  | _ => false

def isList : Json → Bool
  | .arr _ => true
  | _ => false

/-- A text with a format. -/
def isTextOf (f : Format) : Json → Bool
  | .str s => f.holds s.toList
  | _ => false

/-- A whole number that is not negative. -/
def isCount (draft : Draft) (v : Json) : Bool :=
  TypeName.integer.admits draft v
    && match v with
      | .num n => n.compare (.int 0) != .lt
      | _ => false

def isPositive : Json → Bool
  | .num n => n.compare (.int 0) == .gt
  | _ => false

/-- A list of texts without repetition; in draft 4 it is not empty. -/
def isNameList (draft : Draft) : Json → Bool
  | .arr items => items.all isText && Json.allDistinct items && (draft != .draft4 || !items.isEmpty)
  | _ => false

def isTypeWord : Json → Bool
  | .str word => (TypeName.ofWord? word).isSome
  | _ => false

/-- The word for a type, or several of them. -/
def isTypeList : Json → Bool
  | .arr items => !items.isEmpty && items.all isTypeWord && Json.allDistinct items
  | v => isTypeWord v

/-- A list of constants; in draft 4 it is not empty and has no repetition. -/
def isEnum (draft : Draft) : Json → Bool
  | .arr items => draft != .draft4 || (!items.isEmpty && Json.allDistinct items)
  | _ => false

/-! ## Keywords -/

/-- Whether a keyword that holds no schemas may have a value. -/
def allowsValue (draft : Draft) (keyword : String) (v : Json) : Bool :=
  match keyword with
  | "id" => draft != .draft4 || isText v
  | "$id" | "$ref" => draft == .draft4 || isTextOf .uriReference v
  | "$schema" => if draft == .draft4 then isText v else isTextOf .uri v
  | "title" | "description" | "format" => isText v
  | "$comment" | "contentMediaType" | "contentEncoding" => draft != .draft7 || isText v
  | "readOnly" => draft != .draft7 || isFlag v
  | "examples" => draft == .draft4 || isList v
  | "multipleOf" => isPositive v
  | "minimum" | "maximum" => isNumber v
  | "exclusiveMinimum" | "exclusiveMaximum" => if draft == .draft4 then isFlag v else isNumber v
  | "minLength" | "maxLength" | "minItems" | "maxItems" | "minProperties" | "maxProperties" =>
    isCount draft v
  | "pattern" => isTextOf .regex v
  | "uniqueItems" => isFlag v
  | "required" => isNameList draft v
  | "enum" => isEnum draft v
  | "type" => isTypeList v
  | _ => true

/-- Whether a draft says what a keyword that holds schemas may hold. -/
def rules (draft : Draft) (keyword : String) : Bool :=
  match keyword with
  | "if" | "then" | "else" => draft == .draft7
  | "contains" | "propertyNames" => draft != .draft4
  | _ => true

/-- Whether a keyword may have a flag in place of a schema. -/
def allowsFlag (draft : Draft) (keyword : String) : Bool :=
  draft != .draft4 || keyword == "additionalItems" || keyword == "additionalProperties"

/-- Whether the names of a keyword's members are fit. -/
def allowsNames (draft : Draft) (keyword : String) (members : Json.Members) : Bool :=
  keyword != "patternProperties" || draft != .draft7
    || members.all fun m => Format.regex.holds m.1.toList

/-- Whether the flags of draft 4 stand beside their limits. -/
def flagsHaveLimits (draft : Draft) (members : Json.Members) : Bool :=
  draft != .draft4
    || ((!members.contains "exclusiveMinimum" || members.contains "minimum")
      && (!members.contains "exclusiveMaximum" || members.contains "maximum"))

/-! ## Schemas -/

mutual

/-- Whether a value is a schema of the draft. -/
def describes (draft : Draft) : Json → Bool
  | .bool _ => draft != .draft4
  | .obj members => describesKeywords draft members && flagsHaveLimits draft members
  | _ => false

/-- Whether keywords have values that the draft allows. -/
def describesKeywords (draft : Draft) : List (String × Json) → Bool
  | [] => true
  | (keyword, v) :: rest =>
    (if !draft.rules keyword then true
      else
        match SchemaPlace.ofKeyword keyword, v with
        | .nowhere, v => allowsValue draft keyword v
        | .whole, .bool _ => allowsFlag draft keyword
        | .whole, v => describes draft v
        | .items, .arr vs => !vs.isEmpty && describesAll draft vs
        | .items, _ => false
        | .wholeOrItems, .arr vs => !vs.isEmpty && describesAll draft vs
        | .wholeOrItems, v => describes draft v
        | .members, .obj named => allowsNames draft keyword named && describesMembers draft named
        | .members, _ => false
        | .membersOrNames, .obj named => describesOrNames draft named
        | .membersOrNames, _ => false)
      && describesKeywords draft rest

/-- Whether all items are schemas. -/
def describesAll (draft : Draft) : List Json → Bool
  | [] => true
  | v :: rest => describes draft v && describesAll draft rest

/-- Whether all members are schemas. -/
def describesMembers (draft : Draft) : List (String × Json) → Bool
  | [] => true
  | (_, v) :: rest => describes draft v && describesMembers draft rest

/-- Whether all members are schemas or lists of names. -/
def describesOrNames (draft : Draft) : List (String × Json) → Bool
  | [] => true
  | (_, v) :: rest => (describes draft v || isNameList draft v) && describesOrNames draft rest

end

end Draft

end DecoderForge
