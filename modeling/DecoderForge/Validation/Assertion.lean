import DecoderForge.Json.Printer
import DecoderForge.Json.Reader
import DecoderForge.Text.Base64
import DecoderForge.Validation.Equality
import DecoderForge.Validation.Format

/-!
# DecoderForge — assertions on a value

An assertion speaks of a value itself and not of the values inside it by way of other schemas.

* `Assertion.faults` — what an assertion finds wrong with a value.
-/

namespace DecoderForge

/-- The names of types. -/
inductive TypeName where
  | array | boolean | integer | null | number | object | string
deriving DecidableEq, Repr

namespace TypeName

/-- The word for a type. -/
def word : TypeName → String
  | .array => "array"
  | .boolean => "boolean"
  | .integer => "integer"
  | .null => "null"
  | .number => "number"
  | .object => "object"
  | .string => "string"

/-- All types in the order of their words. -/
def all : List TypeName := [.array, .boolean, .integer, .null, .number, .object, .string]

/-- The type that a word names. -/
def ofWord? (word : String) : Option TypeName := all.find? fun t => t.word == word

/-- Whether a value has a type.  In draft 4 an integer is written without a fraction. -/
def admits (draft : Draft) (t : TypeName) (v : Json) : Bool :=
  match t, v with
  | .array, .arr _ => true
  | .boolean, .bool _ => true
  | .integer, .num (.int _) => true
  | .integer, .num (.float x) => draft != .draft4 && x.isWhole
  | .null, .null => true
  | .number, .num _ => true
  | .object, .obj _ => true
  | .string, .str _ => true
  | _, _ => false

end TypeName

/-- A condition on a value. -/
inductive Assertion where
  | type (draft : Draft) (names : List TypeName)
  | enum (values : List Json)
  | const (value : Json)
  | atLeast (limit : Json.Number) (exclusive : Bool)
  | atMost (limit : Json.Number) (exclusive : Bool)
  | multipleOf (divisor : Binary64)
  | minLength (limit : Nat)
  | maxLength (limit : Nat)
  | pattern (text : String) (node : Pattern.Node)
  | format (format : Format)
  | minItems (limit : Nat)
  | maxItems (limit : Nat)
  | uniqueItems
  /-- No items but the first `count`. -/
  | noItemsBeyond (count : Nat)
  | required (names : List String)
  | minProperties (limit : Nat)
  | maxProperties (limit : Nat)
  | noProperties
  /-- No property, whatever its name. -/
  | noPropertyNames
  | base64
  | jsonText
  | base64OfJsonText
deriving Repr

namespace Assertion

/-! ## Wording -/

/-- A count with its noun. -/
def counted (n : Nat) (one many : String) : String :=
  toString n ++ " " ++ if n == 1 then one else many

/-- The wording for a value without a type. -/
def typeFault (v : Json) (t : TypeName) : String :=
  v.compact ++ " is not of type \"" ++ t.word ++ "\""

/-- The wording for a value with none of several types. -/
def typesFault (v : Json) (names : List TypeName) : String :=
  v.compact ++ " is not of types "
    ++ String.intercalate ", " ((TypeName.all.filter names.contains).map fun t => "\"" ++ t.word ++ "\"")

/-- The wording for a text without a format. -/
def formatFault (v : Json) (name : String) : String := v.compact ++ " is not a \"" ++ name ++ "\""

/-- The wording for a value that nothing allows. -/
def neverFault (v : Json) : String := "False schema does not allow " ++ v.compact

/-- The wording for items or properties that should not be there. -/
def unexpectedFault (noun : String) (texts : List String) : String :=
  "Additional " ++ noun ++ " are not allowed (" ++ String.intercalate ", " texts ++ " "
    ++ (if texts.length == 1 then "was" else "were") ++ " unexpected)"

def base64Fault (v : Json) : String := v.compact ++ " is not compliant with \"base64\" content encoding"

def jsonTextFault (v : Json) : String :=
  v.compact ++ " is not compliant with \"application/json\" media type"

/-- The wording of a missing property. -/
def requiredFault (name : String) : String := Json.Token.quote name ++ " is a required property"

/-! ## Numbers -/

/-- Whether the quotient of two decimals is whole. -/
def isWholeQuotient (a b : Decimal) : Bool :=
  let e := a.exponent - b.exponent
  (a.digits * 10 ^ e.toNat) % (b.digits * 10 ^ (-e).toNat) == 0

/-- Whether a number is a multiple of another.  By a whole divisor the division is exact; by any other
the quotient may lie less than one unit in the last place above a whole number, or below zero. -/
def isMultiple (x divisor : Binary64) : Bool :=
  if divisor.isZero then false
  else if divisor.isWhole then x.isWhole && x.isMultipleOf divisor
  else
    match x.div divisor with
    | some quotient => quotient.fraction.compare Binary64.epsilon == .lt
    | none => isWholeQuotient x.shortest divisor.shortest

/-- Whether a number is on the right side of a lower limit. -/
def isAbove (n limit : Json.Number) (exclusive : Bool) : Bool :=
  match n.compare limit with
  | .gt => true
  | .eq => !exclusive
  | .lt => false

/-! ## Faults -/

/-- A fault where a condition fails. -/
def check (condition : Bool) (fault : String) : List String := if condition then [] else [fault]

/-- What an encoded text has wrong. -/
def base64JsonFaults (v : Json) (s : String) : List String :=
  match Text.base64Bytes? s.toList with
  | none => [base64Fault v]
  | some bytes =>
    match Text.decode bytes with
    | .error d => [d.message]
    | .ok t => check (Json.read? (String.ofList t)).isSome (jsonTextFault v)

/-- Whether the faults of an assertion concern a text that the value encodes and so have no place in
the value. -/
def isPlaceless (a : Assertion) (v : Json) : Bool :=
  match a, v with
  | .base64OfJsonText, .str s =>
    match Text.base64Bytes? s.toList with
    | some bytes => (Text.decode? bytes).isNone
    | none => false
  | _, _ => false

/-- What an assertion finds wrong with a value. -/
def faults (a : Assertion) (v : Json) : List String :=
  match a, v with
  | .type draft names, v =>
    match names with
    | [t] => check (t.admits draft v) (typeFault v t)
    | names => check (names.any fun t => t.admits draft v) (typesFault v names)
  | .enum values, v =>
    check (values.any fun w => w.sameValue v) (v.compact ++ " is not one of " ++ (Json.arr values).compact)
  | .const value, v => check (value.equalsConstant v) (value.compact ++ " was expected")
  | .atLeast limit exclusive, .num n =>
    check (isAbove n limit exclusive)
      (v.compact ++ (if exclusive then " is less than or equal to" else " is less than")
        ++ " the minimum of " ++ limit.toText)
  | .atMost limit exclusive, .num n =>
    check (isAbove limit n exclusive)
      (v.compact ++ (if exclusive then " is greater than or equal to" else " is greater than")
        ++ " the maximum of " ++ limit.toText)
  | .multipleOf divisor, .num n =>
    check (isMultiple n.toBinary64 divisor)
      (v.compact ++ " is not a multiple of " ++ divisor.toPlainText)
  | .minLength limit, .str s =>
    check (limit ≤ s.length)
      (v.compact ++ " is shorter than " ++ counted limit "character" "characters")
  | .maxLength limit, .str s =>
    check (s.length ≤ limit)
      (v.compact ++ " is longer than " ++ counted limit "character" "characters")
  | .pattern text node, .str s =>
    check (node.isFoundIn s) (v.compact ++ " does not match \"" ++ text ++ "\"")
  | .format f, .str s => check (f.holds s.toList) (formatFault v f.name)
  | .minItems limit, .arr items =>
    check (limit ≤ items.length) (v.compact ++ " has less than " ++ counted limit "item" "items")
  | .maxItems limit, .arr items =>
    check (items.length ≤ limit) (v.compact ++ " has more than " ++ counted limit "item" "items")
  | .uniqueItems, .arr items => check (Json.allDistinct items) (v.compact ++ " has non-unique elements")
  | .noItemsBeyond count, .arr items =>
    check (items.length ≤ count) (unexpectedFault "items" ((items.drop count).map Json.compact))
  | .required names, .obj members => (names.filter fun n => !Json.Members.contains members n).map requiredFault
  | .minProperties limit, .obj members =>
    check (limit ≤ members.length)
      (v.compact ++ " has less than " ++ counted limit "property" "properties")
  | .maxProperties limit, .obj members =>
    check (members.length ≤ limit)
      (v.compact ++ " has more than " ++ counted limit "property" "properties")
  | .noProperties, .obj ((_, first) :: _) => [neverFault first]
  | .noPropertyNames, .obj (_ :: _) => [neverFault v]
  | .base64, .str s => check (Text.base64Bytes? s.toList).isSome (base64Fault v)
  | .jsonText, .str s => check (Json.read? s).isSome (jsonTextFault v)
  | .base64OfJsonText, .str s => base64JsonFaults v s
  | _, _ => []

end Assertion

end DecoderForge
