import DecoderForge.Toml.Scalar
import DecoderForge.Toml.Tree

/-!
# DecoderForge — reading TOML

A file is a row of statements, one a line: headers and assignments.

* `Toml.read?` — the table that a text describes.
-/

namespace DecoderForge.Toml

/-! ## Values -/

/-- What follows a comment up to the end of its line; there are no control characters in it. -/
def dropComment? (s : List Char) : Option (List Char) :=
  match s with
  | '#' :: _ =>
    match s.dropWhile isPlain with
    | [] => some []
    | rest => if (dropNewline? rest).isSome then some rest else none
  | _ => some s

/-- What follows blanks, line ends and comments; the number bounds how many lines there are. -/
def dropLayout? : Nat → List Char → Option (List Char)
  | 0, s => some s
  | n + 1, s => do
    let s ← dropComment? (dropSpaces s)
    match dropNewline? s with
    | some rest => dropLayout? n rest
    | none => return s

/-- Reads a value at the front of a text. -/
abbrev ValueReader := List Char → Option (Toml × List Char)

/-- The items of a list behind its bracket. -/
def readItems? (read : ValueReader) : Nat → List Char → Option (List Toml × List Char)
  | 0, _ => none
  | n + 1, s => do
    let s ← dropLayout? s.length s
    match s with
    | ']' :: rest => return ([], rest)
    | s =>
      let (v, rest) ← read s
      match ← dropLayout? rest.length rest with
      | ',' :: rest =>
        let (more, rest) ← readItems? read n rest
        return (v :: more, rest)
      | ']' :: rest => return ([v], rest)
      | _ => none

/-- A key with its value, and the rest. -/
def readAssignment? (read : ValueReader) (s : List Char) :
    Option ((List String × String × Toml) × List Char) := do
  let (path, rest) ← readKey? s
  match dropSpaces rest, path.getLast? with
  | '=' :: rest, some name =>
    let (v, rest) ← read (dropSpaces rest)
    return ((path.dropLast, name, v), rest)
  | _, _ => none

/-- The members of a table in braces behind the first of its keys or behind a comma. -/
def readMembers? (read : ValueReader) (members : Tree.Members) :
    Nat → List Char → Option (Tree.Members × List Char)
  | 0, _ => none
  | n + 1, s => do
    let ((path, name, v), rest) ← readAssignment? read s
    let members ← Tree.assign? members name v path
    match dropSpaces rest with
    | ',' :: rest => readMembers? read members n rest
    | '}' :: rest => return (members, rest)
    | _ => none

/-- A value at the front of a text; the number bounds how deep lists and tables are nested. -/
def readValue? : Nat → ValueReader
  | 0, _ => none
  | depth + 1, s =>
    match s with
    | '[' :: rest => (readItems? (readValue? depth) s.length rest).map fun (vs, rest) => (.arr vs, rest)
    | '{' :: rest =>
      match dropSpaces rest with
      | '}' :: rest => some (.table [], rest)
      | rest =>
        (readMembers? (readValue? depth) [] s.length rest).map fun (members, rest) =>
          ((Tree.table .opened members).toToml, rest)
    | c :: _ =>
      if c == '"' || c == '\'' then (readString? s).map fun (t, rest) => (.str (String.ofList t), rest)
      else
        let (word, rest) := splitWord s
        (ofWord? word).map fun v => (v, rest)
    | [] => none

/-- How deep lists and tables may be nested. -/
def maxDepth : Nat := 80

/-! ## Statements -/

/-- A statement of a file. -/
inductive Statement where
  | header (path : List String) (name : String)
  | elementHeader (path : List String) (name : String)
  | assignment (path : List String) (name : String) (v : Toml)

/-- The key of a header between `open` and `close`, and the rest. -/
def readHeader? (close s : List Char) (make : List String → String → Statement) :
    Option (Statement × List Char) := do
  let (path, rest) ← readKey? s
  let rest ← Text.dropStart? close (dropSpaces rest)
  let name ← path.getLast?
  return (make path.dropLast name, rest)

/-- The statement at the front of a line, and the rest. -/
def readStatement? (s : List Char) : Option (Statement × List Char) :=
  match s with
  | '[' :: '[' :: rest => readHeader? [']', ']'] rest .elementHeader
  | '[' :: rest => readHeader? [']'] rest .header
  | _ =>
    (readAssignment? (readValue? maxDepth) s).map fun ((path, name, v), rest) =>
      (.assignment path name v, rest)

/-- The statements of a text; the number bounds how many lines there are. -/
def readStatements? : Nat → List Char → Option (List Statement)
  | 0, _ => none
  | n + 1, s => do
    let rest ← dropLayout? s.length s
    match rest with
    | [] => return []
    | rest =>
      let (statement, rest) ← readStatement? rest
      let rest ← dropComment? (dropSpaces rest)
      match rest, dropNewline? rest with
      | [], _ => return [statement]
      | _, some rest => (readStatements? n rest).map (statement :: ·)
      | _, none => none

/-! ## Documents -/

/-- Adds statements to a document, of which the table under `here` is open. -/
def build? (root : Tree.Members) (here : List String) : List Statement → Option Tree.Members
  | [] => some root
  | .header path name :: rest => do
    let root ← Tree.within? (Tree.openTable? name) root path
    build? root (path ++ [name]) rest
  | .elementHeader path name :: rest => do
    let root ← Tree.within? (Tree.openElement? name) root path
    build? root (path ++ [name]) rest
  | .assignment path name v :: rest => do
    let root ← Tree.within? (fun members => Tree.assign? members name v path) root here
    build? root here rest

/-- The table that a text describes.  A byte order mark in front does not count. -/
def read? (text : List Char) : Option Toml := do
  let s := match text with
    | '\uFEFF' :: rest => rest
    | s => s
  let statements ← readStatements? (s.length + 1) s
  let members ← build? [] [] statements
  return (Tree.table .opened members).toToml

end DecoderForge.Toml
