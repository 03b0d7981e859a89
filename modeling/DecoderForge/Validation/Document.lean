import DecoderForge.Options.Basic
import DecoderForge.Url.Basic

/-!
# DecoderForge — schemas under URLs

A reference names a schema by URL.  The schemas of a document are found by the identifiers that they
carry, each relative to the identifier around it, and by pointers into the document or into a schema with
an identifier.

* `Document.ofSchema` — a document with the identifiers in it.
* `Document.resolve` — the schema under a URL, with the URL to which references inside it are relative.
-/

namespace DecoderForge

/-- The member that holds the identifier of a schema. -/
def Draft.idKey : Draft → String
  | .draft4 => "id"
  | _ => "$id"

/-- The identifier of a schema. -/
def schemaId? (draft : Draft) (schema : Json) : Option String := schema.getString? draft.idKey

/-- A document in which references are looked up. -/
structure Document where
  draft : Draft
  root : Json
  /-- The URL of the document. -/
  scope : Url
  /-- The schemas that carry an identifier, in order, under the text of their URL. -/
  named : List (String × Json)

namespace Document

/-- The URL of a document without identifier. -/
def defaultScope : Url := ⟨"json-schema".toList, some [], .segments [[]], none, none⟩

/-! ## Identifiers -/

/-- A URL whose fragment, if empty, is left out. -/
def withoutEmptyFragment (u : Url) : Url := if u.fragment == some [] then u.withoutFragment else u

mutual

/-- The schemas with identifiers inside a value. -/
def namedSchemas (draft : Draft) (base : Url) : Json → Except Url.Fault (List (String × Json))
  | .arr items => namedInItems draft base items
  | .obj members =>
    match schemaId? draft (.obj members) with
    | some id => do
      let url ← base.join id
      let url := withoutEmptyFragment url
      let inside ← namedInMembers draft url members
      return (String.ofList url.toText, .obj members) :: inside
    | none => namedInMembers draft base members
  | _ => .ok []

/-- The schemas with identifiers inside items. -/
def namedInItems (draft : Draft) (base : Url) : List Json → Except Url.Fault (List (String × Json))
  | [] => .ok []
  | v :: rest => do
    let first ← namedSchemas draft base v
    let more ← namedInItems draft base rest
    return first ++ more

/-- The schemas with identifiers inside members; constants are no schemas. -/
def namedInMembers (draft : Draft) (base : Url) :
    List (String × Json) → Except Url.Fault (List (String × Json))
  | [] => .ok []
  | (k, v) :: rest => do
    let first ← if k == "enum" || k == "const" then .ok [] else namedSchemas draft base v
    let more ← namedInMembers draft base rest
    return first ++ more

end

/-- A document with the identifiers in it; an identifier at the root is its URL. -/
def ofSchema (draft : Draft) (root : Json) : Except Url.Fault Document := do
  let scope ← match schemaId? draft root with
    | some id => Url.read none id
    | none => .ok defaultScope
  let named ← namedSchemas draft scope root
  return ⟨draft, root, scope, named⟩

/-- The URL inside a schema.  While no URL is known a relative identifier does not count. -/
def enter (draft : Draft) (scope : Url) (schema : Json) : Except Url.Fault Url :=
  match schemaId? draft schema with
  | none => .ok scope
  | some id =>
    if scope != defaultScope then scope.join id
    else
      match Url.read none id with
      | .error .relativeWithoutBase => .ok scope
      | url => url

/-! ## Fragments -/

/-- The bytes of a fragment; a percent sign without two digits stands for itself. -/
def fragmentBytes : List Char → List UInt8
  | '%' :: a :: b :: rest =>
    match Json.Token.hexValue? a, Json.Token.hexValue? b with
    | some x, some y => UInt8.ofNat (x * 16 + y) :: fragmentBytes rest
    | _, _ => String.utf8EncodeChar '%' ++ fragmentBytes (a :: b :: rest)
  | c :: rest => String.utf8EncodeChar c ++ fragmentBytes rest
  | [] => []

/-- The value under a list of tokens, and the identifiers of the schemas passed on the way. -/
def descend (draft : Draft) (j : Json) : List (List Char) → Option (List String × Json)
  | [] => some ([], j)
  | t :: ts =>
    (j.child? t).bind fun k =>
      (descend draft k ts).map fun (ids, v) => ((schemaId? draft j).toList ++ ids, v)

/-- The value under a pointer, and the identifiers passed on the way. -/
def atPointer (draft : Draft) (j : Json) (pointer : List Char) : Option (List String × Json) :=
  match pointer with
  | '/' :: rest => descend draft j ((Text.splitAt '/' rest).map Pointer.unescapeToken)
  | _ => none

/-! ## Look-up -/

/-- Why a URL names no schema. -/
inductive Fault where
  | badUrl (f : Url.Fault)
  | fragment (d : Text.Damage)
  /-- The document exists, what the fragment names does not. -/
  | missing (url : Url)
  /-- No document has the URL. -/
  | unknownDocument (url : Url)

/-- The wording of a fault. -/
def Fault.message : Fault → String
  | .badUrl f => f.message
  | .fragment d => d.message
  | .missing url => "Invalid reference: " ++ String.ofList url.toText
  | .unknownDocument url =>
    let scheme := String.ofList url.scheme
    "failed to resolve " ++ String.ofList url.toText ++ ": "
      ++ if scheme == "json-schema" then
          "cannot resolve relative external schema without root schema ID"
        else if scheme == "file" then "No such file or directory (os error 2)"
        else "unknown scheme " ++ scheme

/-- The whole document, or the schema whose identifier is a URL. -/
def document? (d : Document) (url : Url) : Option Json :=
  if url == defaultScope then some d.root else d.named.reverse.lookup (String.ofList url.toText)

/-- A URL joined with identifiers in turn. -/
def enterAll (url : Url) : List String → Except Url.Fault Url
  | [] => .ok url
  | id :: rest => (url.join id).bind fun url => enterAll url rest

/-- The schema under a URL, with the URL to which references inside it are relative.  A schema that has
the URL as its identifier comes first; next the fragment is a pointer into the document. -/
def resolve (d : Document) (url : Url) : Except Fault (Url × Json) := do
  let resource := url.withoutFragment
  let fragment ← (Text.decode (fragmentBytes (url.fragment.getD []))).mapError .fragment
  match d.named.lookup (String.ofList url.toText) with
  | some schema => return (resource, schema)
  | none =>
    match d.document? resource with
    | none => throw (.unknownDocument resource)
    | some document =>
      if fragment.isEmpty then return (resource, document)
      else
        match atPointer d.draft document fragment with
        | none => throw (.missing url)
        | some (ids, schema) =>
          let scope ← (enterAll resource ids.tail).mapError .badUrl
          return (scope, schema)

end Document

end DecoderForge
