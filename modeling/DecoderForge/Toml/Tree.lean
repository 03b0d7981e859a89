import DecoderForge.Toml.Basic

/-!
# DecoderForge — building tables

A file builds its tables step by step: a header opens a table, an assignment adds to the open one, and
dots in a key open tables in between.  How a table came about decides what may still be added to it.

* `Toml.Tree.assign?` — adds a value under a key.
* `Toml.Tree.openTable?`, `Toml.Tree.openElement?` — what headers do.
* `Toml.Tree.toToml` — the finished value.
-/

namespace DecoderForge.Toml

/-- How a table came about. -/
inductive Origin where
  /-- A header named it on the way to another table. -/
  | passed
  /-- A dotted key named it. -/
  | dotted
  /-- A header opened it. -/
  | opened
deriving DecidableEq, Repr

/-- A table or value that is being built. -/
inductive Tree where
  | value (v : Toml)
  | table (origin : Origin) (members : List (String × Tree))
  /-- A list of tables, of which the last is open. -/
  | tables (before : List (List (String × Tree))) (last : List (String × Tree))

namespace Tree

/-- Members of a table that is being built. -/
abbrev Members := List (String × Tree)

/-- Members with another value under a name, at its place or else at the end. -/
def replace (members : Members) (name : String) (t : Tree) : Members :=
  match members with
  | [] => [(name, t)]
  | (k, old) :: rest => if k == name then (k, t) :: rest else (k, old) :: replace rest name t

/-- Adds a value under a key.  Its name is free, and a table on the way was made by a dotted key. -/
def assign? (members : Members) (name : String) (v : Toml) : List String → Option Members
  | [] => if (members.lookup name).isSome then none else some (replace members name (.value v))
  | p :: rest =>
    match members.lookup p with
    | none => (assign? [] name v rest).map fun inner => replace members p (.table .dotted inner)
    | some (.table .dotted inner) =>
      (assign? inner name v rest).map fun inner => replace members p (.table .dotted inner)
    | some (.table .passed inner) =>
      if rest.isEmpty then none
      else (assign? inner name v rest).map fun inner => replace members p (.table .passed inner)
    | some (.tables before last) =>
      if rest.isEmpty then none
      else (assign? last name v rest).map fun last => replace members p (.tables before last)
    | some _ => none

/-- Changes the table under a path, making tables on the way. -/
def within? (change : Members → Option Members) (members : Members) : List String → Option Members
  | [] => change members
  | p :: rest =>
    match members.lookup p with
    | none => (within? change [] rest).map fun inner => replace members p (.table .passed inner)
    | some (.table origin inner) =>
      (within? change inner rest).map fun inner => replace members p (.table origin inner)
    | some (.tables before last) =>
      (within? change last rest).map fun last => replace members p (.tables before last)
    | some (.value _) => none

/-- Opens a table that is new or was only passed before. -/
def openTable? (name : String) (members : Members) : Option Members :=
  match members.lookup name with
  | none => some (replace members name (.table .opened []))
  | some (.table .passed inner) => some (replace members name (.table .opened inner))
  | some _ => none

/-- Opens the next table of a list. -/
def openElement? (name : String) (members : Members) : Option Members :=
  match members.lookup name with
  | none => some (replace members name (.tables [] []))
  | some (.tables before last) => some (replace members name (.tables (before ++ [last]) []))
  | some _ => none

/-! ## The finished value -/

/-- Members inserted by name. -/
def insertSorted (m : String × Toml) : Toml.Members → Toml.Members
  | [] => [m]
  | n :: rest => if m.1 < n.1 then m :: n :: rest else n :: insertSorted m rest

mutual

/-- The finished value; the members of tables stand in the order of their names. -/
def toToml : Tree → Toml
  | .value v => v
  | .table _ members => .table (membersToToml members)
  | .tables before last => .arr (elementsToToml before ++ [.table (membersToToml last)])

/-- Finished members in the order of their names. -/
def membersToToml : List (String × Tree) → Toml.Members
  | [] => []
  | (k, t) :: rest => insertSorted (k, toToml t) (membersToToml rest)

/-- Finished tables of a list. -/
def elementsToToml : List (List (String × Tree)) → List Toml
  | [] => []
  | members :: rest => .table (membersToToml members) :: elementsToToml rest

end

end Tree

end DecoderForge.Toml
