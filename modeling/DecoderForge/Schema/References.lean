import DecoderForge.Json.Basic

/-!
# DecoderForge — the references in a value

* `Json.references` — every string that stands as `$ref` somewhere in a value, in order.
-/

namespace DecoderForge.Json

mutual

/-- Every reference inside a value. -/
def references : Json → List String
  | .arr items => referencesOfItems items
  | .obj members => referencesOfMembers members
  | _ => []

/-- Every reference inside items. -/
def referencesOfItems : List Json → List String
  | [] => []
  | v :: rest => references v ++ referencesOfItems rest

/-- Every reference inside members, and those that members are. -/
def referencesOfMembers : List (String × Json) → List String
  | [] => []
  | (k, v) :: rest =>
    (match k, v with
      | "$ref", .str r => [r]
      | _, v => references v) ++ referencesOfMembers rest

end

end DecoderForge.Json
