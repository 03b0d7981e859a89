import DecoderForge.Json.Token

/-!
# DecoderForge — JSON as text

* `Json.compact` — without blanks.
* `Json.pretty` — one item or member per line, two spaces per level; empty ones as `[]` and `{}`.
-/

namespace DecoderForge

namespace Json

/-! ## Compact -/

mutual

/-- The value without blanks. -/
def compact : Json → String
  | .null => "null"
  | .bool true => "true"
  | .bool false => "false"
  | .num n => n.toText
  | .str s => Token.quote s
  | .arr items => "[" ++ String.intercalate "," (compactItems items) ++ "]"
  | .obj members => "\x7b" ++ String.intercalate "," (compactMembers members) ++ "\x7d"

/-- Each item. -/
def compactItems : List Json → List String
  | [] => []
  | v :: rest => compact v :: compactItems rest

/-- Each member with its name. -/
def compactMembers : List (String × Json) → List String
  | [] => []
  | (k, v) :: rest => (Token.quote k ++ ":" ++ compact v) :: compactMembers rest

end

/-! ## Pretty -/

/-- The indentation of a nesting level. -/
def prettyIndent (depth : Nat) : String := String.ofList (List.replicate (2 * depth) ' ')

mutual

/-- The value from its place at nesting level `depth` on. -/
def prettyAt (depth : Nat) : Json → String
  | .null => "null"
  | .bool true => "true"
  | .bool false => "false"
  | .num n => n.toText
  | .str s => Token.quote s
  | .arr [] => "[]"
  | .obj [] => "\x7b\x7d"
  | .arr (v :: rest) =>
    "[\n" ++ String.intercalate ",\n" (prettyItems (depth + 1) (v :: rest)) ++ "\n"
      ++ prettyIndent depth ++ "]"
  | .obj (m :: rest) =>
    "\x7b\n" ++ String.intercalate ",\n" (prettyMembers (depth + 1) (m :: rest)) ++ "\n"
      ++ prettyIndent depth ++ "\x7d"

/-- Each item on its own line. -/
def prettyItems (depth : Nat) : List Json → List String
  | [] => []
  | v :: rest => (prettyIndent depth ++ prettyAt depth v) :: prettyItems depth rest

/-- Each member on its own line. -/
def prettyMembers (depth : Nat) : List (String × Json) → List String
  | [] => []
  | (k, v) :: rest =>
    (prettyIndent depth ++ Token.quote k ++ ": " ++ prettyAt depth v) :: prettyMembers depth rest

end

/-- The value over several lines, two spaces per level. -/
def pretty (j : Json) : String := prettyAt 0 j

end Json

end DecoderForge
