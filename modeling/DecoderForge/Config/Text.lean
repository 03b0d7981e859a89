import DecoderForge.Options.Writing
import DecoderForge.Toml.Printer

/-!
# DecoderForge — a configuration as text

* `Config.toToml` — the text of a configuration with all its fields.
-/

namespace DecoderForge

/-- The fields of the options in the order of the file: names and flags before tables. -/
def GenerateOptions.fileFields (o : GenerateOptions) : Json.Members :=
  optionalField "decoder_name" o.decoderName
    ++ [("pack", .bool o.pack), ("collision", .str o.collision.word), ("style", o.style.toJson),
      ("validator", o.validator.toJson), ("naming", o.naming.toJson)]

/-- The text of a configuration, or why an engine option cannot be written. -/
def Config.toToml (c : Config) : Except Toml.Fault String :=
  (Toml.membersOfJson [("generate", .obj c.generate.fileFields), ("paths", c.paths.toJson)]).map Toml.print

end DecoderForge
