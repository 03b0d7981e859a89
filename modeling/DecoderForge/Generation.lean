import DecoderForge.Disk.Update
import DecoderForge.Json.Reader
import DecoderForge.Layout.Format
import DecoderForge.Module.Assembly
import DecoderForge.Types.Declaration

/-!
# DecoderForge — a generation run

A run plans the decoders of a schema, writes the validator files and then the module that uses them.

* `Collaborators` — what compiles types and validators and lays out the module.
* `generate` — a whole run.
* `loadSchema` — a schema from a file.
-/

namespace DecoderForge

/-- Lays out a text in a style, or says why it cannot. -/
abbrev Formatter := (source : String) → Style → Except String String

/-- What a run relies on. -/
structure Collaborators where
  types : TypeCompiler
  validators : ValidatorCompiler
  formatter : Formatter

namespace Collaborators

/-- The collaborators of this library. -/
def builtIn (o : GenerateOptions) : Collaborators where
  types := TypeCompiler.builtIn o.naming o.collision
  validators := ValidatorCompiler.builtIn o.validator
  formatter := fun source style => (Layout.format source style).mapError fun f => f.message

end Collaborators

/-- What a run did. -/
structure Report where
  decoderName : String
  mode : Mode
  entries : List DecoderEntry
  /-- Validator files first, the module last. -/
  files : List FileReport

namespace Report

/-- Paths of the files that were written. -/
def written (r : Report) : List String :=
  (r.files.filter fun f => f.outcome == .written).map FileReport.path

/-- Paths of the files that held their content already. -/
def unchanged (r : Report) : List String :=
  (r.files.filter fun f => f.outcome == .unchanged).map FileReport.path

/-- Paths of the files that would change, with the differences. -/
def stale (r : Report) : List (String × String) :=
  r.files.filterMap fun f =>
    match f.outcome with
    | .stale diff => some (f.path, diff)
    | _ => none

def isUpToDate (r : Report) : Bool := r.files.all fun f => f.outcome == .unchanged

/-- Decoders that should have a compiled validator and have none. -/
def degraded (r : Report) : List DecoderEntry :=
  r.entries.filter fun e => r.mode == .pack && e.isPointerLookup

end Report

/-- File that holds the module. -/
def indexFile : String := "index.ts"

/-- The path of a file in a folder. -/
def pathIn (folder file : String) : String := String.ofList (Disk.Path.join folder.toList file.toList)

/-- The output folder, made if it is missing; in check mode it may be missing. -/
def prepareOutput (mode : WriteMode) (output : String) : Run Unit := do
  let d ← get
  match d.find? output.toList with
  | some .folder => return
  | some (.file _) => throw (.notADirectory output)
  | none =>
    match mode with
    | .check => return
    | .write =>
      let (fault, d) := d.attemptFolders output.toList
      set d
      match fault with
      | none => return
      | some f => throw (.writeFailed output f)

/-- The name of the registry class: the configured one, else one made from the output folder. -/
def registryName (o : GenerateOptions) (output : String) (d : Disk) : String :=
  match o.decoderName with
  | some name => name
  | none => o.naming.registryClass (d.folderName output.toList)

/-- A whole run into an output folder. -/
def generate (c : Collaborators) (o : GenerateOptions) (mode : WriteMode) (schema : Json)
    (output : String) : Run Report := do
  let plan ← Plan.ofSchema c.validators o schema
  prepareOutput mode output
  let decoderName := registryName o output (← get)
  let validators ← Run.updateAll mode (plan.pending.map fun f => { f with path := pathIn output f.path })
  let declarations ← c.types.block plan.definitions o.style
  let source := Module.assemble
    { decoderName
      style := o.style
      schema := plan.schema
      engineOptions := o.validator.engineOptions
      imports := plan.imports o.style
      declarations
      entries := plan.decoders }
  match c.formatter source o.style with
  | .error reason => throw (.formatter reason)
  | .ok text =>
    let index := pathIn output indexFile
    let outcome ← Run.update mode index text
    return ⟨decoderName, o.mode, plan.decoders, validators ++ [⟨index, outcome⟩]⟩

/-! ## Input -/

/-- The text of a file. -/
def readText (d : Disk) (path : String) : Except GenerateError String :=
  match d.read path.toList with
  | .error _ => .error .io
  | .ok bytes =>
    match Text.decode? bytes with
    | none => .error .io
    | some s => .ok (String.ofList s)

/-- A schema from a file. -/
def loadSchema (d : Disk) (path : String) : Except GenerateError Json :=
  if !d.isFile path.toList then .error (.inputNotFound path)
  else do
    let text ← readText d path
    match Json.read? text with
    | some j => return j
    | none => throw .json

end DecoderForge
