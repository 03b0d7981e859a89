import DecoderForge.Disk.Path
import DecoderForge.Error
import DecoderForge.Text.Utf8

/-!
# DecoderForge — a tree of folders and files

A disk keeps what stands at each location under its top folder.  Paths lead to locations, relative ones
from the working folder, and every folder that a path passes has to exist.

* `Disk.locate` — the location that a path leads to.
* `Disk.read`, `Disk.write` — the bytes of a file.
* `Disk.attemptFolders` — makes a folder with all folders above it.
-/

namespace DecoderForge

/-- Names of folders from the top down, the last that of the place itself. -/
abbrev Location := List String

/-- What stands at a location. -/
inductive DiskEntry where
  | folder
  | file (bytes : List UInt8)
deriving DecidableEq, Repr

/-- Folders and files. -/
structure Disk where
  entries : List (Location × DiskEntry)
  workingFolder : Location
deriving Repr

namespace Disk

/-- What stands at a location; the top folder always exists. -/
def entry? (d : Disk) (at' : Location) : Option DiskEntry :=
  if at'.isEmpty then some .folder else d.entries.lookup at'

/-- The disk with something else at a location. -/
def put (d : Disk) (at' : Location) (e : DiskEntry) : Disk :=
  { d with entries := (at', e) :: d.entries.filter fun p => p.1 != at' }

/-- The non-empty beginnings of a location, shortest first. -/
def ancestry : Location → List Location
  | [] => []
  | name :: rest => [name] :: (ancestry rest).map (name :: ·)

/-- A disk with nothing but an empty working folder. -/
def withFolder (folder : Location) : Disk :=
  ⟨(ancestry folder).map fun l => (l, .folder), folder⟩

/-- The names in a folder with what they stand for. -/
def names (d : Disk) (folder : Location) : List (String × DiskEntry) :=
  d.entries.filterMap fun (l, e) =>
    match l.getLast? with
    | some name => if l.dropLast == folder then some (name, e) else none
    | none => none

/-- Everything below a folder with the way to it from there: depth first, each folder in order of names. -/
def below (d : Disk) (folder : Location) : List (Location × DiskEntry) :=
  let found := d.entries.filterMap fun (l, e) =>
    if folder.isPrefixOf l && l != folder then some (l.drop folder.length, e) else none
  found.mergeSort fun a b => !decide (b.1 < a.1)

/-! ## Paths -/

/-- A step from a location, which has to be a folder. -/
def step (d : Disk) (at' : Location) (segment : List Char) : Except FileFault Location :=
  match d.entry? at' with
  | none => .error .notFound
  | some (.file _) => .error .notADirectory
  | some .folder =>
    if segment == ['.'] then .ok at'
    else if segment == ['.', '.'] then .ok at'.dropLast
    else .ok (at' ++ [String.ofList segment])

/-- Steps in turn. -/
def walk (d : Disk) (at' : Location) : List (List Char) → Except FileFault Location
  | [] => .ok at'
  | s :: rest => (d.step at' s).bind fun l => walk d l rest

/-- The locations that a path leads through where every folder exists, its end last. -/
def passed (at' : Location) : List (List Char) → List Location
  | [] => [at']
  | s :: rest =>
    let next := if s.isEmpty || s == ['.'] then at'
      else if s == ['.', '.'] then at'.dropLast
      else at' ++ [String.ofList s]
    at' :: passed next rest

/-- The locations that a path leads through. -/
def way (d : Disk) (path : List Char) : List Location :=
  passed (if Path.isAbsolute path then [] else d.workingFolder) (Text.splitAt '/' path)

/-- Whether a path ends in a slash. -/
def endsInSlash (path : List Char) : Bool := path.getLast? == some '/'

/-- The location that a path leads to.  What stands there, if anything does, is a folder where the path
ends in a slash. -/
def locate (d : Disk) (path : List Char) : Except FileFault Location :=
  if path.isEmpty then .error .notFound
  else do
    let start := if Path.isAbsolute path then [] else d.workingFolder
    let at' ← d.walk start ((Text.splitAt '/' path).filter fun s => !s.isEmpty)
    match endsInSlash path, d.entry? at' with
    | true, some (.file _) => .error .notADirectory
    | _, _ => .ok at'

/-- What stands where a path leads. -/
def find? (d : Disk) (path : List Char) : Option DiskEntry :=
  match d.locate path with
  | .ok at' => d.entry? at'
  | .error _ => none

def exists? (d : Disk) (path : List Char) : Bool := (d.find? path).isSome

def isFolder (d : Disk) (path : List Char) : Bool := d.find? path == some .folder

def isFile (d : Disk) (path : List Char) : Bool :=
  match d.find? path with
  | some (.file _) => true
  | _ => false

/-! ## Files -/

/-- The bytes of a file. -/
def read (d : Disk) (path : List Char) : Except FileFault (List UInt8) := do
  let at' ← d.locate path
  match d.entry? at' with
  | none => throw .notFound
  | some .folder => throw .isADirectory
  | some (.file bytes) => return bytes

/-- Writes a file, over one that is there; the folder around it has to exist. -/
def write (d : Disk) (path : List Char) (bytes : List UInt8) : Except FileFault Disk := do
  let at' ← d.locate path
  if d.entry? at' == some .folder || endsInSlash path then throw .isADirectory
  return d.put at' (.file bytes)

/-- What stands on a disk and did not on another: folders before what they hold. -/
def changes (before after : Disk) : List (Location × DiskEntry) :=
  (after.below []).filter fun (l, e) => before.entry? l != some e

/-! ## Folders -/

/-- Makes a folder in one that exists. -/
def makeFolder (d : Disk) (path : List Char) : Except FileFault Disk := do
  let at' ← d.locate path
  match d.entry? at' with
  | some _ => throw .alreadyExists
  | none => return d.put at' .folder

/-- A path without its last component; none where it has none. -/
def parentPath? (path : List Char) : Option (List Char) :=
  let segments := (Text.splitAt '/' path).reverse.dropWhile fun s => (Path.component? s).isNone
  match segments with
  | [] => none
  | _ :: before => some (Path.trimEnd (Text.joinWith ['/'] before.reverse))

/-- Makes a folder, and those above it that are missing; the number bounds how many there can be.  A folder
that is there already will do.  Folders made before a fault stay. -/
def attemptFoldersWithin (d : Disk) : Nat → (path : List Char) → Option FileFault × Disk
  | 0, _ => (some .notFound, d)
  | n + 1, path =>
    if path.isEmpty then (none, d)
    else
      match d.makeFolder path with
      | .ok d => (none, d)
      | .error .notFound =>
        match parentPath? path with
        | none => (some .notFound, d)
        | some parent =>
          match d.attemptFoldersWithin n parent with
          | (some f, d) => (some f, d)
          | (none, d) =>
            match d.makeFolder path with
            | .ok d => (none, d)
            | .error f => (if d.isFolder path then none else some f, d)
      | .error f => (if d.isFolder path then none else some f, d)

/-- Makes a folder with all folders above it that are missing: the fault, if any, and the disk afterwards. -/
def attemptFolders (d : Disk) (path : List Char) : Option FileFault × Disk :=
  d.attemptFoldersWithin (path.length + 1) path

/-- The disk with a folder and all folders above it. -/
def makeFolders (d : Disk) (path : List Char) : Except FileFault Disk :=
  match d.attemptFolders path with
  | (none, d) => .ok d
  | (some f, _) => .error f

/-! ## Names -/

/-- The name of the folder that a path leads to: the last name of the path, else that of the place. -/
def folderName (d : Disk) (path : List Char) : String :=
  match Path.fileName? path with
  | some name => String.ofList name
  | none =>
    match d.locate path with
    | .error _ => ""
    | .ok at' => if (d.entry? at').isSome then at'.getLast?.getD "" else ""

end Disk

end DecoderForge
