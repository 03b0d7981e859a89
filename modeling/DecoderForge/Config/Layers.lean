import DecoderForge.Config.Rules
import DecoderForge.Config.Text
import DecoderForge.Disk.Basic
import DecoderForge.Toml.Reader

/-!
# DecoderForge — layers of a configuration

A configuration is laid together from files and the environment, later layers over earlier ones.  Names
are compared in small letters.  The options of the engine keep their spelling, so they are read once more
from the files as they stand there.

* `Layers.load` — the configuration that the layers form.
* `Layers.save` — writes a configuration to a file.
-/

namespace DecoderForge.Layers

/-! ## Merging -/

/-- The members of a table; other values have none. -/
def membersOf : Option Toml → Toml.Members
  | some (.table members) => members
  | _ => []

/-- Members with another value under a name, at its place or else at the end. -/
def replace (members : Toml.Members) (name : String) (v : Toml) : Toml.Members :=
  match members with
  | [] => [(name, v)]
  | (k, old) :: rest => if k == name then (k, v) :: rest else (k, old) :: replace rest name v

mutual

/-- Lays a value over the one under a name; tables are laid together. -/
def lay (members : Toml.Members) (name : String) : Toml → Toml.Members
  | .table inner =>
    let name := Toml.lowerCased name
    let below := (members.lookup name).getD (.table [])
    replace members name (layAll below inner)
  | v => replace members (Toml.lowerCased name) v

/-- Lays members over those of a value. -/
def layAll (below : Toml) : List (String × Toml) → Toml
  | [] => below
  | (name, v) :: rest => layAll (.table (lay (membersOf (some below)) name v)) rest

end

/-- Lays a value over the one at the end of a path. -/
def layAt (members : Toml.Members) (v : Toml) : List String → Toml.Members
  | [] => members
  | [name] => lay members name v
  | name :: rest =>
    let name := Toml.lowerCased name
    replace members name (.table (layAt (membersOf (members.lookup name)) v rest))

/-- The path that a name with dots stands for. -/
def pathOf (name : String) : List String :=
  let parts := Text.splitAt '.' name.toList
  if parts.all fun p => !p.isEmpty && p.all Toml.isBare then parts.map String.ofList else [name]

/-- Lays a whole layer over another. -/
def layLayer (below : Toml.Members) (layer : Toml.Members) : Toml.Members :=
  layer.foldl (fun members (name, v) => layAt members v (pathOf name)) below

/-! ## Files -/

/-- Files that are read wherever the program runs. -/
def standardFiles : List String := ["decoders.toml", ".decoders.toml", "config/decoders.toml"]

/-- The user's file in the folder for configurations. -/
def userFile : String := "schema-decoders/decoders.toml"

/-- The ending of configuration files. -/
def ending : List Char := "toml".toList

/-- Whether a path ends in the ending of configuration files. -/
def hasEnding (path : List Char) : Bool :=
  match Disk.Path.fileName? path with
  | some name => name == Disk.Path.stem name ++ ['.'] ++ ending
  | none => false

/-- The file for a name: the one called so, else the one with the ending behind the name. -/
def fileFor? (d : Disk) (name : List Char) : Option (List Char) :=
  if d.isFile name then if hasEnding name then some name else none
  else
    let path := Disk.Path.trimEnd name ++ ['.'] ++ ending
    if (Disk.Path.fileName? name).isSome && d.isFile path then some path else none

/-- The table in a file; bytes that are no text do not matter. -/
def readLayer (d : Disk) (path : List Char) : Except GenerateError Toml.Members :=
  match d.read path with
  | .error _ => .error .config
  | .ok bytes =>
    match Toml.read? (Text.decodeLossy bytes) with
    | some (.table members) => .ok members
    | _ => .error .config

/-- Lays the file for a name over what is there; it may be missing. -/
def layFile (d : Disk) (below : Toml.Members) (name : List Char) : Except GenerateError Toml.Members :=
  match fileFor? d name with
  | none => .ok below
  | some path => (readLayer d path).map (layLayer below)

/-- Lays files in turn. -/
def layFiles (d : Disk) (below : Toml.Members) : List (List Char) → Except GenerateError Toml.Members
  | [] => .ok below
  | name :: rest => do layFiles d (← layFile d below name) rest

/-! ## Environment -/

/-- Variables of the environment by name and value. -/
abbrev Environment := List (String × String)

/-- The beginning of the names of variables that count, in small letters. -/
def variableStart : List Char := "decoders__".toList

/-- A variable as a layer; two underscores lead into a table. -/
def ofVariable? (name value : String) : Option (List String × Toml) :=
  (Text.dropStart? variableStart (Toml.lowerCased name).toList).map fun rest =>
    (pathOf (String.ofList (Text.replaceAll ['_', '_'] ['.'] rest)), Toml.ofText value)

/-- An environment from a block of `name=value` texts with a null character between any two. -/
def Environment.ofBlock (block : List Char) : Environment :=
  (Text.splitAt '\x00' block).filterMap fun s =>
    match s.dropWhile (· != '=') with
    | [] => none
    | _ :: value => some (String.ofList (s.takeWhile (· != '=')), String.ofList value)

/-- Lays the environment over what is there. -/
def layEnvironment (below : Toml.Members) (env : Environment) : Toml.Members :=
  (env.filterMap fun (name, value) => ofVariable? name value).foldl
    (fun members (path, v) => layAt members v path) below

/-! ## Engine options -/

/-- The engine options in a table, spelled as they are there. -/
def engineIn (document : Toml) : Json.Members :=
  match ((document.get? "generate").bind (·.get? "validator")).bind (·.get? "engine") with
  | some v => (v.toJson.asMembers?).getD []
  | none => []

/-- The engine options in a file. -/
def readEngine (d : Disk) (path : List Char) : Except GenerateError Json.Members :=
  match d.read path with
  | .error _ => .error .io
  | .ok bytes =>
    match Text.decode? bytes with
    | none => .error .io
    | some text =>
      match Toml.read? text with
      | some document => .ok (engineIn document)
      | none => .error .config

/-- The engine options in files, later ones over earlier ones. -/
def readEngines (d : Disk) (found : Json.Members) : List (List Char) → Except GenerateError Json.Members
  | [] => .ok found
  | path :: rest => do
    let more ← readEngine d path
    readEngines d (more.foldl (fun ms (k, v) => ms.insert k v) found) rest

/-- Options with others in place of those that differ in spelling at most. -/
def respell (current spelled : Json.Members) : Json.Members :=
  let kept := current.filter fun m => !spelled.any fun s => Toml.lowerCased s.1 == m.1
  spelled.foldl (fun ms (k, v) => Json.Members.insert ms k v) kept

/-- The file of which the engine options are read where a name was given: the one called so, else the one
with the ending in place of its own. -/
def engineFile? (d : Disk) (name : List Char) : Option (List Char) :=
  if d.isFile name then some name
  else
    let path := Disk.Path.withExtension name ending
    if d.isFile path then some path else none

/-! ## All layers -/

/-- The folder for the user's configurations: the one set as such, if its path starts at the root, else the
usual one in the home folder. -/
def userFolder? (env : Environment) : Option (List Char) :=
  match (env.lookup "XDG_CONFIG_HOME").map String.toList, (env.lookup "HOME").map String.toList with
  | some ('/' :: rest), _ => some ('/' :: rest)
  | _, some (c :: home) => some (Disk.Path.join (c :: home) ".config".toList)
  | _, _ => none

/-- The user's file, whether or not it is there. -/
def userFile? (env : Environment) : Option (List Char) :=
  (userFolder? env).map fun folder => Disk.Path.join folder userFile.toList

/-- The user's file, if anything is there. -/
def userFiles (d : Disk) (env : Environment) : List (List Char) :=
  (userFile? env).toList.filter d.exists?

/-- The layers laid together. -/
def layers (d : Disk) (env : Environment) (explicit : Option String) :
    Except GenerateError Toml.Members := do
  let members ← layFiles d [] (standardFiles.map String.toList ++ userFiles d env)
  let members ← match explicit with
    | none => .ok members
    | some name =>
      match fileFor? d name.toList with
      | none => .error .config
      | some path => (readLayer d path).map (layLayer members)
  return layEnvironment members env

/-- The files of which the engine options are read. -/
def engineFiles (d : Disk) (env : Environment) (explicit : Option String) : List (List Char) :=
  (standardFiles.map String.toList).filter d.isFile ++ userFiles d env
    ++ (match explicit with
      | some name => (engineFile? d name.toList).toList
      | none => [])

/-- The configuration with engine options in the spelling of the files. -/
def withEngine (c : Config) (spelled : Json.Members) : Config :=
  if spelled.isEmpty then c
  else
    let validator := { c.generate.validator with engine := respell c.generate.validator.engine spelled }
    { c with generate := { c.generate with validator } }

/-- The configuration that the layers form: files, the user's file, the file that was asked for, and the
environment. -/
def load (d : Disk) (env : Environment) (explicit : Option String) : Except GenerateError Config := do
  let members ← layers d env explicit
  match Toml.layerRules.config? (.table members) with
  | none => throw .config
  | some c =>
    let spelled ← readEngines d [] (engineFiles d env explicit)
    return withEngine c spelled

/-- Paths of all files that the layers may come from. -/
def candidates (env : Environment) (explicit : Option String) : List (List Char) :=
  let names := standardFiles.map String.toList ++ (userFile? env).toList
    ++ (explicit.map String.toList).toList
  names.flatMap fun n => [n, Disk.Path.trimEnd n ++ ['.'] ++ ending, Disk.Path.withExtension n ending]

/-! ## Saving -/

/-- Why a configuration is not saved. -/
inductive SaveFault where
  | text (f : Toml.Fault)
  | file (f : FileFault)
deriving DecidableEq, Repr

/-- The wording of a fault. -/
def SaveFault.message : SaveFault → String
  | .text f => f.message
  | .file f => f.message

/-- Writes a configuration to a file. -/
def save (d : Disk) (path : String) (c : Config) : Except SaveFault Disk := do
  let text ← c.toToml.mapError .text
  (d.write path.toList (Text.encode text.toList)).mapError .file

end DecoderForge.Layers
