import DecoderForge.Schema.References
import DecoderForge.Types.Schema

/-!
# DecoderForge — type declarations

Each definition of a schema becomes one declaration, an interface where its schema allows, and the
schema around the definitions one more, the container.

* `Types.compile` — the declarations of a schema: the container first, then the definitions in order.
* `TypeCompiler.block` — the declarations of a generated module: all but the container.
-/

namespace DecoderForge.Types

/-- How declarations are compiled. -/
structure Options where
  /-- Whether definitions count that the schema around them does not refer to. -/
  unreachableDefinitions : Bool := true
  /-- Whether string enums with `tsEnumNames` become constant enums. -/
  enableConstEnums : Bool := false
  style : Style := {}
deriving Repr

/-- What a declaration says of its name. -/
inductive Body where
  /-- A constant enum with its members and their values. -/
  | constEnum (members : List (String × String))
  /-- An interface with that object type. -/
  | interface (type : TypeExpr)
  /-- An alias of a type. -/
  | alias (type : TypeExpr)

/-- A declaration. -/
structure Declaration where
  name : String
  doc : Option (List (List Char))
  body : Body

/-- A line of a constant enum. -/
def enumLine (style : Style) (member value : String) : List Char :=
  style.indentUnit ++ member.toList ++ " = ".toList ++ style.quoteChars value.toList ++ ",\n".toList

/-- The text of a declaration without its comment. -/
def Body.text (style : Style) (name : List Char) : Body → List Char
  | .constEnum members =>
    "export const enum ".toList ++ name ++ " \x7b\n".toList
      ++ members.flatMap (fun (m, v) => enumLine style m v) ++ ['}']
  | .interface type => "export interface ".toList ++ name ++ [' '] ++ type.render style
  | .alias type => "export type ".toList ++ name ++ " = ".toList ++ type.render style ++ [';']

/-- The text of a declaration. -/
def Declaration.source (style : Style) (d : Declaration) : String :=
  String.ofList (docText d.doc ++ d.body.text style d.name.toList)

/-! ## From schemas -/

/-- Pairs of names and values, if all are strings and the names can stand unquoted. -/
def enumPairs? : List Json → List Json → Option (List (String × String))
  | [], [] => some []
  | .str value :: values, .str member :: names =>
    if isPlainIdentifier member.toList then (enumPairs? values names).map ((member, value) :: ·)
    else none
  | _, _ => none

/-- The members of a constant enum, where a schema asks for one. -/
def constEnum? (options : Options) (schema : Json) : Option (List (String × String)) :=
  if !options.enableConstEnums then none
  else
    match (schema.get? "enum").bind Json.asItems?, (schema.get? "tsEnumNames").bind Json.asItems? with
    | some values, some names => enumPairs? values names
    | _, _ => none

/-- Whether a schema is declared as an interface. -/
def isInterface : Json → Bool
  | .obj members =>
    let has := Json.Members.contains members
    if ["$ref", "allOf", "anyOf", "oneOf", "enum", "const"].any has then false
    else
      match Json.Members.get? members "type" with
      | some (.str name) => name == "object"
      | some _ => false
      | none => has "properties" || has "additionalProperties"
  | _ => false

/-- The declaration of a schema under a name.  A type hint on the schema itself names it and is not
its type. -/
def declare (scope : Scope) (options : Options) (name : String) (schema : Json) :
    Except Fault Declaration :=
  match constEnum? options schema with
  | some members => .ok ⟨name, docLines? schema, .constEnum members⟩
  | none =>
    if isInterface schema then
      (scope.objectType schema).map fun type => ⟨name, docLines? schema, .interface type⟩
    else
      (scope.exprWithoutHint schema).map fun type => ⟨name, docLines? schema, .alias type⟩

/-- A schema without its definitions. -/
def container : Json → Json
  | .obj members => .obj (members.filter fun m => m.1 != definitionsKey)
  | _ => .obj []

/-! ## Reachability -/

/-- The references by which a definition is known: escaped, and with its key as it is. -/
def spellings (key : String) : List String :=
  [definitionPointer key, "#/" ++ definitionsKey ++ "/" ++ key]

/-- The keys that references name. -/
def keysNamed (keys refs : List String) : List String :=
  keys.filter fun key => (spellings key).any refs.contains

/-- Keys with those that the definitions under them refer to, followed so many times. -/
def followed (entries : Json.Members) : Nat → List String → List String
  | 0, seen => seen
  | n + 1, seen =>
    let inside := (entries.filter fun e => seen.contains e.1).flatMap fun e => e.2.references
    let more := keysNamed (entries.map Prod.fst) inside
    followed entries n (seen ++ more.filter fun k => !seen.contains k)

/-- The references inside the keywords of the schema around the definitions.  A reference that is
itself a keyword of that schema does not count. -/
def rootReferences (root : Json) : List String :=
  (((container root).asMembers?).getD []).flatMap fun m => m.2.references

/-- The keys of the definitions to which keywords of the schema around them refer, themselves or
through other definitions. -/
def reachableKeys (root : Json) (entries : Json.Members) : List String :=
  followed entries entries.length (keysNamed (entries.map Prod.fst) (rootReferences root))

/-! ## Whole schemas -/

/-- The names that references to definitions stand for; of two definitions with a reference in
common the later counts. -/
def referenceNames (definitions : List Definition) : List (String × String) :=
  (definitions.flatMap fun d => (spellings d.key).map fun r => (r, d.name)).reverse

/-- The definitions of a schema with their identifiers; none where there is no map of them. -/
def definitionsOf (naming : Naming) (policy : CollisionPolicy) (schema : Json) :
    Except Fault (List Definition) :=
  match Definitions.ofSchema schema with
  | .ok ds => (ds.enumerate naming policy).mapError .naming
  | .error _ => .ok []

/-- The declarations of a schema: the container under `rootName`, then the definitions. -/
def compile (naming : Naming) (policy : CollisionPolicy) (options : Options) (rootName : String)
    (schema : Json) : Except Fault (List Declaration) := do
  let definitions ← definitionsOf naming policy schema
  let scope : Scope := ⟨schema, options.style, referenceNames definitions⟩
  let root ← declare scope options rootName (container schema)
  let reachable := reachableKeys schema (definitions.map fun d => (d.key, d.schema))
  let emitted :=
    if options.unreachableDefinitions then definitions
    else definitions.filter fun d => reachable.contains d.key
  let declarations ← collect (fun (d : Definition) => declare scope options d.name d.schema) emitted
  return root :: declarations

end DecoderForge.Types

namespace DecoderForge

/-- A declaration as text under its name. -/
structure TypeDeclaration where
  name : String
  source : String
deriving DecidableEq, Repr

/-- Turns a schema into declarations, given the name of the container; or says why it cannot. -/
abbrev TypeCompiler :=
  (schema : Json) → (rootName : String) → Types.Options → Except String (List TypeDeclaration)

namespace TypeCompiler

/-- The compiler of this library. -/
def builtIn (naming : Naming) (policy : CollisionPolicy) : TypeCompiler :=
  fun schema rootName options =>
    match Types.compile naming policy options rootName schema with
    | .ok ds => .ok (ds.map fun d => ⟨d.name, d.source options.style⟩)
    | .error f => .error f.message

/-- The name of the container of the definitions. -/
def containerName : String := "GeneratedContainerSchema"

/-- The declarations of a generated module, a blank line between them.  The container is left out. -/
def block (compiler : TypeCompiler) (definitions : Definitions) (style : Style) :
    Except GenerateError String :=
  match compiler definitions.toSchema containerName { style } with
  | .error reason => .error (.typeCompiler reason)
  | .ok ds =>
    .ok (String.intercalate "\n\n" ((ds.filter fun d => d.name != containerName).map (·.source)))

end TypeCompiler

end DecoderForge
