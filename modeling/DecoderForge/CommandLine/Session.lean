import DecoderForge.CommandLine.Invocation
import DecoderForge.Config.Layers
import DecoderForge.Generation
import DecoderForge.Registry.Basic

/-!
# DecoderForge — running a command

A session works on a disk and says what it has done.  It ends well, or with the message of an error; what
it has done and said before an error stays.

* `Command.run` — a command with its configuration.
* `execute` — a whole command line.
-/

namespace DecoderForge.CommandLine

/-- What a session works on. -/
structure Desk where
  disk : Disk
  /-- What has been said. -/
  said : String := ""

/-- A computation that may end with the message of an error. -/
abbrev Session := ExceptT String (StateM Desk)

namespace Session

def say (text : String) : Session Unit := modify fun desk => { desk with said := desk.said ++ text }

def sayLine (text : String) : Session Unit := say (text ++ "\n")

def disk : Session Disk := return (← get).disk

/-- A result whose error ends the session. -/
def ofResult (r : Except GenerateError α) : Session α :=
  match r with
  | .ok a => return a
  | .error e => throw e.message

/-- A computation on the disk. -/
def onDisk (run : Run α) : Session α := do
  let (result, disk) := run.run (← disk)
  modify fun desk => { desk with disk }
  ofResult result

/-- A value that has to be there. -/
def need (value : Option α) (message : String) : Session α :=
  match value with
  | some a => return a
  | none => throw message

end Session

open Session

/-- The options with what the command line asks for. -/
def adjusted (o : GenerateOptions) (decoderName : Option String) (noPack : Bool) : GenerateOptions :=
  { o with decoderName := decoderName.or o.decoderName, pack := o.pack && !noPack }

/-- Says which files would change; there must be none. -/
def sayStale (output : String) (files : List (String × String)) : Session Unit := do
  if files.isEmpty then sayLine ("✅ " ++ output ++ " is up to date")
  else
    for (path, diff) in files do
      sayLine ("❌ " ++ path ++ " is out of date")
      say diff
    throw (toString files.length ++ " generated file(s) out of date")

/-- Generates into a folder. -/
def runGenerate (c : Config) (input output decoderName : Option String) (noPack isCheck : Bool) :
    Session Unit := do
  let input ← need (input.or c.paths.input) "No input schema given (argument or paths.input)"
  let output ← need (output.or c.paths.output) "No output folder given (argument or paths.output)"
  let o := adjusted c.generate decoderName noPack
  let schema ← ofResult (loadSchema (← disk) input)
  let mode := if isCheck then .check else .write
  let report ← onDisk (DecoderForge.generate (Collaborators.builtIn o) o mode schema output)
  for e in report.degraded do
    sayLine ("⚠️  " ++ e.name ++ " uses pointer lookup (no standalone validator)")
  if isCheck then sayStale output report.stale
  else
    sayLine ("✅ " ++ input ++ " → " ++ output ++ " (" ++ toString report.entries.length ++ " definitions, "
      ++ toString report.written.length ++ " written, " ++ toString report.unchanged.length
      ++ " unchanged)")

/-- The JSON in a file. -/
def readDocument (path : String) : Session Json := do
  let text ← need (readText (← disk) path).toOption ("Failed to read " ++ path)
  need (Json.read? text) ("Invalid JSON in " ++ path)

/-- Decodes a document with one definition. -/
def runCheck (c : Config) (input definition document : String) : Session Unit := do
  let schema ← ofResult (loadSchema (← disk) input)
  let registry ← ofResult (Registry.ofSchema c.generate schema)
  let v ← readDocument document
  match (registry.decode definition v).1 with
  | .ok _ => sayLine ("✅ " ++ document ++ " is a valid " ++ definition)
  | .error e =>
    for issue in e.fault.issues do
      sayLine ("   " ++ issue.text)
    throw e.fault.message

/-- Says what the configuration is. -/
def runShowConfig (c : Config) : Session Unit :=
  match c.toToml with
  | .ok text => say text
  | .error f => throw f.message

/-- Writes a file with the default configuration. -/
def runInitConfig (path : String) (force : Bool) : Session Unit := do
  let d ← disk
  if d.exists? path.toList && !force then
    throw (path ++ " already exists (use --force to overwrite)")
  match Layers.save d path {} with
  | .ok disk =>
    modify fun desk => { desk with disk }
    sayLine ("📝 Wrote " ++ path)
  | .error f => throw f.message

/-- Runs a command. -/
def Command.run (c : Config) : Command → Session Unit
  | .generate input output name noPack isCheck => runGenerate c input output name noPack isCheck
  | .check input definition document => runCheck c input definition document
  | .showConfig => runShowConfig c
  | .initConfig path force => runInitConfig path force

/-- Loads the configuration and runs the command. -/
def Invocation.run (env : Layers.Environment) (i : Invocation) : Session Unit := do
  let c ← ofResult (Layers.load (← disk) env i.configFile)
  i.command.run c

/-- Paths that a command may look at or write. -/
def Command.paths (c : Config) : Command → List String
  | .generate input output _ _ _ => (input.or c.paths.input).toList ++ (output.or c.paths.output).toList
  | .check input _ document => [input, document]
  | .showConfig => []
  | .initConfig path _ => [path]

/-- Paths that a command line may look at or write, as far as the configuration on the disk tells. -/
def reach (env : Layers.Environment) (words : List String) (d : Disk) : List (List Char) :=
  match Invocation.ofWords words with
  | .error _ => []
  | .ok i =>
    let c := (Layers.load d env i.configFile).toOption.getD {}
    Layers.candidates env i.configFile ++ (i.command.paths c).map String.toList

/-! ## Outcomes -/

/-- What a program leaves behind: its exit status, and what it wrote to either stream. -/
structure Outcome where
  status : Nat
  stdout : String := ""
  stderr : String := ""
deriving DecidableEq, Repr

/-- A page, or what is wrong with the words and how to use the command. -/
def Stop.outcome : Stop → Outcome
  | .help page => { status := 0, stdout := page.text }
  | .usage page .commandMissing => { status := 2, stderr := page.text }
  | .usage page fault =>
    { status := 2
      stderr := "error: " ++ fault.message ++ "\n\n" ++ page.usage
        ++ "\n\nFor more information, try '--help'.\n" }

/-- Runs a command line; also the disk afterwards. -/
def execute (env : Layers.Environment) (words : List String) (d : Disk) : Outcome × Disk :=
  match Invocation.ofWords words with
  | .error stop => (stop.outcome, d)
  | .ok i =>
    let (result, desk) := (i.run env).run { disk := d }
    (match result with
      | .ok _ => { status := 0, stdout := desk.said }
      | .error message =>
        { status := 1, stdout := desk.said, stderr := "Error: " ++ message ++ "\n" }, desk.disk)

end DecoderForge.CommandLine
