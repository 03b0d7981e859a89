/-!
# DecoderForge — the commands of the command line

Commands lead to further commands or take values by their places; each takes switches by name.

* `Topic` — everything that a help page can be about: the program and its commands.
* `Topic.commands`, `Topic.slots`, `Topic.switches` — what may follow the name of a command.
-/

namespace DecoderForge.CommandLine

/-- A value that a command takes by its place. -/
structure Slot where
  name : String
  about : String := ""
  required : Bool := false
  /-- Whether it is a path, which may not be empty. -/
  isPath : Bool := true
  /-- The value in place of none. -/
  default : Option String := none
  /-- Whether any number of values may follow. -/
  isMany : Bool := false
deriving DecidableEq, Repr

/-- What a command takes by name. -/
structure Switch where
  long : String
  short : Option Char := none
  /-- The name of its value; a flag has none. -/
  value : Option String := none
  about : String
deriving DecidableEq, Repr

/-- What a help page can be about. -/
inductive Topic where
  | program
  | generate
  | check
  | config
  | configShow
  | configInit
  | help
deriving DecidableEq, Repr

/-- The switch of all commands that names a configuration file. -/
def configSwitch : Switch where
  long := "config"
  short := some 'c'
  value := some "CONFIG"
  about := "Config file layered over decoders.toml and the user config"

/-- The switch of all commands that asks for help. -/
def helpSwitch : Switch where
  long := "help"
  short := some 'h'
  about := "Print help"

def decoderNameSwitch : Switch where
  long := "decoder-name"
  value := some "DECODER_NAME"
  about := "Registry class name"

def noPackSwitch : Switch where
  long := "no-pack"
  about := "Embed the schema instead of emitting validator files"

def checkSwitch : Switch where
  long := "check"
  about := "Report stale files without writing; exits non-zero if any"

def forceSwitch : Switch where
  long := "force"
  about := "Overwrite an existing file"

/-- The file that `config init` writes. -/
def initSlot : Slot where
  name := "PATH"
  default := some "decoders.toml"

namespace Topic

/-- The name of a command. -/
def word : Topic → String
  | program => "schema-decoders"
  | generate => "generate"
  | check => "check"
  | config => "config"
  | configShow => "show"
  | configInit => "init"
  | help => "help"

def about : Topic → String
  | program => "Generate typed decoders from JSON Schema definitions"
  | generate => "Generate index.ts (and validator files in pack mode)"
  | check => "Decode a JSON document with one definition"
  | config => "Inspect or create configuration"
  | configShow => "Print the effective configuration"
  | configInit => "Write a default config file"
  | help => "Print this message or the help of the given subcommand(s)"

/-- The commands that a topic leads to. -/
def commands : Topic → List Topic
  | program => [generate, check, config, help]
  | config => [configShow, configInit, help]
  | _ => []

/-- The values that a command takes. -/
def slots : Topic → List Slot
  | generate =>
    [{ name := "INPUT", about := "Input schema file (defaults to paths.input)" },
     { name := "OUTPUT", about := "Output folder (defaults to paths.output)" }]
  | check =>
    [{ name := "INPUT", about := "Input schema file", required := true },
     { name := "DEFINITION", about := "Definition name (derived identifier)", required := true, isPath := false },
     { name := "DOCUMENT", about := "JSON document to check", required := true }]
  | configInit => [initSlot]
  | help =>
    [{ name := "COMMAND", about := "Print help for the subcommand(s)", isPath := false, isMany := true }]
  | _ => []

/-- The switches of a command, but for the one that asks for help. -/
def switches : Topic → List Switch
  | generate => [configSwitch, decoderNameSwitch, noPackSwitch, checkSwitch]
  | configInit => [configSwitch, forceSwitch]
  | help => []
  | _ => [configSwitch]

/-- The command of a name among those that a topic leads to. -/
def command? (t : Topic) (name : String) : Option Topic := t.commands.find? fun c => c.word == name

end Topic

end DecoderForge.CommandLine
