import DecoderForge.CommandLine.Page

/-!
# DecoderForge — reading a command line

Words are read one by one.  A word names a command, or is a switch, the value of a switch, or a value of
the command; behind `--` every word is a value of the command.

* `Invocation.ofWords` — what the words ask for.
* `Stop` — why nothing is run: help was asked for, or the words make no sense.
-/

namespace DecoderForge.CommandLine

/-- A command with all that it needs. -/
inductive Command where
  | generate (input output decoderName : Option String) (noPack check : Bool)
  | check (input definition document : String)
  | showConfig
  | initConfig (path : String) (force : Bool)
deriving DecidableEq, Repr

/-- A command with the configuration file to use. -/
structure Invocation where
  configFile : Option String
  command : Command
deriving DecidableEq, Repr

/-- Why words make no sense. -/
inductive UsageFault where
  | unknownCommand (word : String)
  | unexpected (word : String)
  | valueMissing (name : String)
  | valueUnwanted (name value : String)
  | repeated (name : String)
  | slotsMissing (names : List String)
  | commandMissing
deriving DecidableEq, Repr

/-- Why nothing is run. -/
inductive Stop where
  | help (page : Page)
  | usage (page : Page) (fault : UsageFault)
deriving DecidableEq, Repr

namespace UsageFault

/-- The wording of a fault. -/
def message : UsageFault → String
  | unknownCommand word => "unrecognized subcommand '" ++ word ++ "'"
  | unexpected word => "unexpected argument '" ++ word ++ "' found"
  | valueMissing name => "a value is required for '" ++ name ++ "' but none was supplied"
  | valueUnwanted name value =>
    "unexpected value '" ++ value ++ "' for '" ++ name ++ "' found; no more were expected"
  | repeated name => "the argument '" ++ name ++ "' cannot be used multiple times"
  | slotsMissing names =>
    "the following required arguments were not provided:" ++ String.join (names.map ("\n  " ++ ·))
  | commandMissing => "a subcommand is required but one was not provided"

end UsageFault

/-- What has been read. -/
structure Progress where
  page : Page
  /-- Switches of the command with their values; flags have empty ones. -/
  given : List (String × String) := []
  /-- Switches of the commands around it. -/
  outer : List (String × String) := []
  values : List String := []
  /-- A switch whose value is the next word. -/
  awaiting : Option Switch := none
  /-- Whether only values of the command may follow. -/
  isPlain : Bool := false
  /-- Whether words name the command that help is wanted on. -/
  seeksHelp : Bool := false

namespace Progress

/-- Nothing is run for a reason. -/
def fault (p : Progress) (f : UsageFault) : Except Stop α := .error (.usage p.page f)

/-- Help was asked for. -/
def help (p : Progress) : Except Stop α := .error (.help p.page)

/-- The value of a switch, that of the inner command first. -/
def value? (p : Progress) (s : Switch) : Option String := (p.given ++ p.outer).lookup s.long

/-- Whether a flag was given. -/
def has (p : Progress) (s : Switch) : Bool := (p.value? s).isSome

/-! ## Single words -/

/-- A switch with its value. -/
def give (p : Progress) (s : Switch) (value : String) : Except Stop Progress :=
  if (p.given.lookup s.long).isSome then p.fault (.repeated s.text)
  else .ok { p with given := (s.long, value) :: p.given, awaiting := none }

/-- A word with two dashes: the name of a switch, and its value behind an equals sign. -/
def readLong (p : Progress) (body : List Char) : Except Stop Progress :=
  let name := String.ofList (body.takeWhile (· != '='))
  let attached := match body.dropWhile (· != '=') with
    | [] => none
    | _ :: v => some (String.ofList v)
  match (helpSwitch :: p.page.topic.switches).find? fun s => s.long == name, attached with
  | none, _ => p.fault (.unexpected ("--" ++ name))
  | some s, some v => if s.value.isSome then p.give s v else p.fault (.valueUnwanted s.text v)
  | some s, none =>
    if s == helpSwitch then p.help
    else if s.value.isSome then .ok { p with awaiting := some s }
    else p.give s ""

/-- A word with one dash: short names of switches, and the value of the last of them. -/
def readShort (p : Progress) : List Char → Except Stop Progress
  | [] => .ok p
  | c :: rest =>
    match (helpSwitch :: p.page.topic.switches).find? fun s => s.short == some c with
    | none => p.fault (.unexpected ("-" ++ String.ofList [c]))
    | some s =>
      if s == helpSwitch then p.help
      else if s.value.isNone then (p.give s "").bind fun p => readShort p rest
      else
        match rest with
        | [] => .ok { p with awaiting := some s }
        | '=' :: v => p.give s (String.ofList v)
        | v => p.give s (String.ofList v)

/-- A value of the command. -/
def readValue (p : Progress) (word : String) : Except Stop Progress :=
  match p.page.topic.slots[p.values.length]? with
  | some slot =>
    if slot.isPath && word.isEmpty then p.fault (.valueMissing slot.text)
    else .ok { p with values := p.values ++ [word] }
  | none =>
    if p.page.topic.commands.isEmpty || p.isPlain then p.fault (.unexpected word)
    else p.fault (.unknownCommand word)

/-- A word that is no command: a switch, the value of one, or a value of the command. -/
def readArgument (p : Progress) (word : String) : Except Stop Progress :=
  match word.toList, p.awaiting with
  | '-' :: _ :: _, some s => p.fault (.valueMissing s.text)
  | ['-', '-'], none => .ok { p with isPlain := true }
  | '-' :: '-' :: body, none => p.readLong body
  | '-' :: c :: rest, none => p.readShort (c :: rest)
  | _, some s => p.give s word
  | _, none => p.readValue word

/-- A word. -/
def read (p : Progress) (word : String) : Except Stop Progress :=
  if p.seeksHelp then
    match p.page.command? word with
    | some page => .ok { p with page }
    | none => p.fault (.unknownCommand word)
  else if p.isPlain then p.readValue word
  else
    match p.awaiting, p.page.command? word with
    | none, some page =>
      if page.topic == .help then .ok { p with seeksHelp := true }
      else .ok { p with page, given := [], outer := p.given ++ p.outer }
    | _, _ => p.readArgument word

/-! ## All words -/

/-- The command behind the last word. -/
def command (p : Progress) : Except Stop Command :=
  match p.page.topic with
  | .generate =>
    .ok (.generate p.values[0]? p.values[1]? (p.value? decoderNameSwitch) (p.has noPackSwitch)
      (p.has checkSwitch))
  | .check =>
    match p.values with
    | [input, definition, document] => .ok (.check input definition document)
    | values => p.fault (.slotsMissing ((p.page.topic.slots.drop values.length).map Slot.text))
  | .configShow => .ok .showConfig
  | .configInit =>
    .ok (.initConfig ((p.values[0]?.or initSlot.default).getD "") (p.has forceSwitch))
  | .program | .config | .help => p.fault .commandMissing

/-- What has been asked for behind the last word. -/
def finish (p : Progress) : Except Stop Invocation := do
  if p.seeksHelp then p.help
  if let some s := p.awaiting then p.fault (.valueMissing s.text)
  return ⟨p.value? configSwitch, ← p.command⟩

end Progress

/-- What words ask for. -/
def Invocation.ofWords (words : List String) : Except Stop Invocation := do
  (← words.foldlM Progress.read { page := .ofProgram }).finish

end DecoderForge.CommandLine
