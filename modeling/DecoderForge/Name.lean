import DecoderForge.Error
import DecoderForge.Json.Basic
import DecoderForge.Text.Case

/-!
# DecoderForge — identifiers from names

A definition's name is turned into one identifier for its type, its validator file and its decoder.
The text is cut into words at everything that is neither letter nor number, at changes of case and at
the borders of digits; each word is capitalized and the words are joined.

* `Naming.identifier?` — the identifier of a text, `none` when no letter or number is in it.
* `Naming.derive` — the identifier of a definition: from its type hint, its `$id` or its key.
* `NameTable.claim` — gives out identifiers so that no two definitions share one.
-/

namespace DecoderForge

/-- Words that stay in capitals. -/
structure Naming where
  acronyms : List String := []
deriving DecidableEq, Repr, Inhabited

/-- Schema keyword that carries a type of its own. -/
def typeHintKey : String := "tsType"

/-- Schema keyword that carries an identifier. -/
def schemaIdKey : String := "$id"

/-- Ending of the registry class when it is named for a folder. -/
def registrySuffix : String := "Decoder"

namespace Name

/-! ## Words -/

/-- Letters and numbers make up words. -/
def isWordPart (c : Char) : Bool := Text.isLetter c || Text.isNumeric c

/-- Whether a word ends between `prev` and `c`, where `next` follows: at the end of small letters, at
the last capital before a small letter, and at either end of a row of digits. -/
def endsBetween (prev c : Char) (next : Option Char) : Bool :=
  (Text.isLower prev && Text.isUpper c)
    || (Text.isUpper prev && Text.isUpper c && next.any Text.isLower)
    || (Text.isNumeric prev != Text.isNumeric c)

/-- The words of a row of letters and numbers. -/
def words : List Char → List (List Char)
  | [] => []
  | [c] => [[c]]
  | c :: d :: rest =>
    if endsBetween c d rest.head? then [c] :: words (d :: rest)
    else
      match words (d :: rest) with
      | [] => [[c]]
      | w :: more => (c :: w) :: more

/-- The longest rows of characters of a class. -/
def runs (p : Char → Bool) : List Char → List (List Char)
  | [] => []
  | [c] => if p c then [[c]] else []
  | c :: d :: rest =>
    if !p c then runs p (d :: rest)
    else if !p d then [c] :: runs p (d :: rest)
    else
      match runs p (d :: rest) with
      | [] => [[c]]
      | r :: more => (c :: r) :: more

/-- Apostrophes vanish without ending a word. -/
def isApostrophe (c : Char) : Bool := c == '\'' || c == '\u2019'

/-- Capitalizes a word. -/
def capitalize : List Char → List Char
  | [] => []
  | c :: rest => Text.toUpper c ++ rest.flatMap Text.toLower

end Name

namespace Naming

/-- The acronyms in capitals. -/
def upperAcronyms (n : Naming) : List (List Char) :=
  n.acronyms.map fun a => Text.upperCased a.toList

/-- A word as part of an identifier: an acronym in capitals, any other capitalized. -/
def caseWord (n : Naming) (word : List Char) : List Char :=
  let upper := Text.upperCased word
  if n.upperAcronyms.contains upper then upper else Name.capitalize word

/-- The identifier of a text; `none` when no letter or number is in it.  An underscore goes before a
leading number. -/
def identifierChars? (n : Naming) (raw : List Char) : Option (List Char) :=
  let cleaned := raw.filter fun c => !Name.isApostrophe c
  let joined := (Name.runs Name.isWordPart cleaned).flatMap fun run =>
    (Name.words run).flatMap n.caseWord
  match joined with
  | [] => none
  | c :: rest => some (if Text.isNumeric c then '_' :: c :: rest else c :: rest)

/-- The identifier of a text, or the error that names it. -/
def identifier (n : Naming) (raw : String) : Except GenerateError String :=
  match n.identifierChars? raw.toList with
  | some cs => .ok (String.ofList cs)
  | none => .error (.invalidName raw)

/-- The text from which a definition's identifier is made: its type hint, else its `$id`, else its
key. -/
def rawName (key : String) (schema : Json) : String :=
  ((schema.getString? typeHintKey).or (schema.getString? schemaIdKey)).getD key

/-- The identifier of a definition. -/
def derive (n : Naming) (key : String) (schema : Json) : Except GenerateError String :=
  n.identifier (rawName key schema)

/-- The registry class for an output folder of that name; the bare ending when it yields no
identifier. -/
def registryClass (n : Naming) (folderName : String) : String :=
  match n.identifierChars? folderName.toList with
  | some cs => String.ofList cs ++ registrySuffix
  | none => registrySuffix

end Naming

/-- Whether a text can stand unquoted as a property name. -/
def isPlainIdentifier (name : List Char) : Bool :=
  match name with
  | [] => false
  | c :: rest =>
    (c.isAlpha || c == '_' || c == '$') && rest.all fun c => c.isAlphanum || c == '_' || c == '$'

/-! ## Claims -/

/-- What happens when an identifier is taken. -/
inductive CollisionPolicy where
  /-- The claim fails. -/
  | error
  /-- The identifier gets a number. -/
  | disambiguate
deriving DecidableEq, Repr, Inhabited

/-- Identifiers given out so far, each with the key of its owner. -/
structure NameTable where
  policy : CollisionPolicy
  owners : List (String × String) := []
deriving Repr

namespace NameTable

/-- The owner of an identifier. -/
def owner? (t : NameTable) (name : String) : Option String := t.owners.lookup name

/-- Whether an identifier is given out. -/
def taken (t : NameTable) (name : String) : Bool := (t.owner? name).isSome

/-- An identifier with a number behind it. -/
def numbered (name : String) (n : Nat) : String := name ++ toString n

/-- The first free number from `n` on; among `fuel + 1` numbers one is free when fewer identifiers
are given out. -/
def freeNumber (t : NameTable) (name : String) : Nat → Nat → Nat
  | 0, n => n
  | fuel + 1, n => if t.taken (numbered name n) then freeNumber t name fuel (n + 1) else n

/-- Records an owner. -/
def record (t : NameTable) (name key : String) : NameTable :=
  { t with owners := (name, key) :: t.owners }

/-- Claims an identifier for the definition with that key.  A free one is given out as it is; a taken
one is refused, or given out with the smallest free number from two on. -/
def claim (t : NameTable) (key name : String) : Except GenerateError (String × NameTable) :=
  match t.owner? name with
  | none => .ok (name, t.record name key)
  | some first =>
    match t.policy with
    | .error => .error (.nameCollision name first key)
    | .disambiguate =>
      let assigned := numbered name (t.freeNumber name t.owners.length 2)
      .ok (assigned, t.record assigned key)

end NameTable

end DecoderForge
