/-!
# DecoderForge — why generation stops

Every cause is a constructor with what it concerns; `GenerateError.message` words it.
-/

namespace DecoderForge

/-- Causes for which a file operation fails. -/
inductive FileFault where
  | notFound
  | notADirectory
  | isADirectory
  | alreadyExists
deriving DecidableEq, Repr

/-- The system's wording of a fault. -/
def FileFault.message : FileFault → String
  | .notFound => "No such file or directory (os error 2)"
  | .notADirectory => "Not a directory (os error 20)"
  | .isADirectory => "Is a directory (os error 21)"
  | .alreadyExists => "File exists (os error 17)"

/-- Causes for which generation fails. -/
inductive GenerateError where
  | inputNotFound (path : String)
  | notADirectory (path : String)
  | noDefinitions
  | nameCollision (name first second : String)
  | invalidName (raw : String)
  | typeCompiler (reason : String)
  | formatter (reason : String)
  | writeFailed (path : String) (fault : FileFault)
  /-- The configuration layers do not form a configuration. -/
  | config
  /-- A file cannot be read. -/
  | io
  /-- A text is no JSON. -/
  | json
deriving DecidableEq, Repr

/-- The wording of an error.  The last three depend on a library's wording and show their kind only. -/
def GenerateError.message : GenerateError → String
  | .inputNotFound path => "Input schema file " ++ path ++ " not found"
  | .notADirectory path => "Output folder " ++ path ++ " should be a directory"
  | .noDefinitions => "No definitions found"
  | .nameCollision name first second =>
    "Definitions '" ++ first ++ "' and '" ++ second ++ "' both derive the name '" ++ name ++ "'"
  | .invalidName raw => "Cannot derive an identifier from '" ++ raw ++ "'"
  | .typeCompiler reason => "Type compiler failed: " ++ reason
  | .formatter reason => "Formatter failed: " ++ reason
  | .writeFailed path fault => "Failed to write " ++ path ++ ": " ++ fault.message
  | .config => "Configuration error:"
  | .io => "IO error:"
  | .json => "JSON error:"

end DecoderForge
