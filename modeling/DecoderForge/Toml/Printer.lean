import DecoderForge.Toml.Scalar

/-!
# DecoderForge — writing TOML

A table is written with its own values first and the tables inside it behind, each under a header; a
table with nothing but tables in it needs none.  A list of tables has one header for each.

* `Toml.print` — the text of a table.
-/

namespace DecoderForge.Toml

/-! ## Values on a line -/

mutual

/-- A value in place. -/
def inline : Toml → List Char
  | .str s => quote s.toList
  | .int n => (toString n).toList
  | .float x => (floatText x).toList
  | .bool b => (if b then "true" else "false").toList
  | .datetime text => text.toList
  | .arr items =>
    match items with
    | [] => ['[', ']']
    | [v] => ['['] ++ inline v ++ [']']
    | v :: rest => ['['] ++ inlineItems (v :: rest) ++ ['\n', ']']
  | .table [] => ['\x7b', '\x7d']
  | .table (m :: rest) => ['\x7b', ' '] ++ inlineMembers (m :: rest) ++ [' ', '\x7d']

/-- Items on lines of their own, each with a comma. -/
def inlineItems : List Toml → List Char
  | [] => []
  | v :: rest => "\n    ".toList ++ inline v ++ [','] ++ inlineItems rest

/-- Members between commas. -/
def inlineMembers : List (String × Toml) → List Char
  | [] => []
  | [(k, v)] => quoteKey k.toList ++ " = ".toList ++ inline v
  | (k, v) :: rest => quoteKey k.toList ++ " = ".toList ++ inline v ++ [',', ' '] ++ inlineMembers rest

end

/-! ## Tables -/

/-- Whether a value is a table. -/
def isTable : Toml → Bool
  | .table _ => true
  | _ => false

/-- Whether a value is written under headers. -/
def hasHeader : Toml → Bool
  | .table _ => true
  | .arr (v :: rest) => (v :: rest).all isTable
  | _ => false

/-- The values of a table that stand on lines of their own. -/
def valueLines (members : Members) : List Char :=
  (members.filter fun m => !hasHeader m.2).flatMap fun (k, v) =>
    quoteKey k.toList ++ " = ".toList ++ inline v ++ ['\n']

/-- A header over a table. -/
def headerLine (mark : List Char) (path : List String) (close : List Char) : List Char :=
  mark ++ Text.joinWith ['.'] (path.map fun k => quoteKey k.toList) ++ close ++ ['\n']

/-- Whether a table has a header: if it has values of its own, or nothing at all. -/
def needsHeader (members : Members) : Bool :=
  members.isEmpty || members.any fun m => !hasHeader m.2

mutual

/-- The sections of a value under a path: one for each table in it. -/
def sections (path : List String) : Toml → List (List Char)
  | .table members =>
    (if needsHeader members then [headerLine ['['] path [']'] ++ valueLines members] else [])
      ++ memberSections path members
  | .arr items => if hasHeader (.arr items) then elementSections path items else []
  | _ => []

/-- The sections of the members of a table. -/
def memberSections (path : List String) : List (String × Toml) → List (List Char)
  | [] => []
  | (k, v) :: rest => sections (path ++ [k]) v ++ memberSections path rest

/-- The sections of a list of tables. -/
def elementSections (path : List String) : List Toml → List (List Char)
  | [] => []
  | .table members :: rest =>
    (headerLine ['[', '['] path [']', ']'] ++ valueLines members) :: memberSections path members
      ++ elementSections path rest
  | _ :: rest => elementSections path rest

end

/-- The text of a table, an empty line between its sections. -/
def print (members : Members) : String :=
  let own := valueLines members
  let first := if own.isEmpty then [] else [own]
  String.ofList (Text.joinWith ['\n'] (first ++ memberSections [] members))

end DecoderForge.Toml
