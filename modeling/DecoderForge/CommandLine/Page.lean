import DecoderForge.CommandLine.Topic

/-!
# DecoderForge — help pages

A page says what a topic is for, how it is used, and lists its commands, values and switches.

* `Page.text` — the page.
* `Page.usage` — its line on how the topic is used.
-/

namespace DecoderForge.CommandLine

/-- The text of a slot in a usage line. -/
def Slot.text (s : Slot) : String :=
  (if s.required then "<" ++ s.name ++ ">" else "[" ++ s.name ++ "]") ++ if s.isMany then "..." else ""

/-- What a list of values says of a slot. -/
def Slot.description (s : Slot) : String :=
  let default := match s.default with
    | some v => "[default: " ++ v ++ "]"
    | none => ""
  if s.about.isEmpty || default.isEmpty then s.about ++ default else s.about ++ " " ++ default

/-- A switch by its long name, with its value. -/
def Switch.text (s : Switch) : String :=
  "--" ++ s.long ++ match s.value with
    | some v => " <" ++ v ++ ">"
    | none => ""

/-- A switch by both names; those without a short one stand in the same column. -/
def Switch.names (s : Switch) : String :=
  (match s.short with
    | some c => "-" ++ String.ofList [c] ++ ", "
    | none => "    ") ++ s.text

/-- A topic with the words that led to it. -/
structure Page where
  topic : Topic
  words : List String
deriving DecidableEq, Repr

namespace Page

/-- The page on the whole program. -/
def ofProgram : Page := ⟨.program, [Topic.program.word]⟩

/-- The page on a command that the topic leads to. -/
def command? (p : Page) (name : String) : Option Page :=
  (p.topic.command? name).map fun t => ⟨t, p.words ++ [t.word]⟩

/-- How the topic is used. -/
def usage (p : Page) : String :=
  let switches := if p.topic.switches.isEmpty then [] else ["[OPTIONS]"]
  let commands := if p.topic.commands.isEmpty then [] else ["<COMMAND>"]
  String.intercalate " " (["Usage:"] ++ p.words ++ switches ++ p.topic.slots.map Slot.text ++ commands)

/-- Items with their descriptions in a second column, under a heading; nothing where there is no item. -/
def listing (heading : String) (items : List (String × String)) : List String :=
  if items.isEmpty then []
  else
    let width := items.foldl (fun w i => max w i.1.length) 0
    let line (item : String × String) : String :=
      let gap := String.ofList (List.replicate (width - item.1.length + 2) ' ')
      "  " ++ item.1 ++ gap ++ item.2 ++ "\n"
    ["\n" ++ heading ++ ":\n" ++ String.join (items.map line)]

/-- The page. -/
def text (p : Page) : String :=
  let t := p.topic
  let switches := if t.switches.isEmpty then [] else t.switches ++ [helpSwitch]
  String.join ([t.about ++ "\n\n" ++ p.usage ++ "\n"]
    ++ listing "Commands" (t.commands.map fun c => (c.word, c.about))
    ++ listing "Arguments" (t.slots.map fun s => (s.text, s.description))
    ++ listing "Options" (switches.map fun s => (s.names, s.about)))

end Page

end DecoderForge.CommandLine
