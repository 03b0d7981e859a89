import DecoderForge.Schema.Definitions

/-!
# DecoderForge — decoders of a module

Every definition has one decoder.  It validates with a compiled validator of its own, or looks its
validator up in an engine that all such decoders share.
-/

namespace DecoderForge

/-- How a decoder validates. -/
inductive Strategy where
  /-- By the compiled validator imported under a name. -/
  | precompiled (ident : String)
  /-- By the engine's validator for a reference. -/
  | pointerLookup (pointer : String)
deriving DecidableEq, Repr

/-- The decoder of a definition. -/
structure DecoderEntry where
  /-- Name of the decoder and of its type. -/
  name : String
  /-- Key of the definition. -/
  key : String
  strategy : Strategy
deriving DecidableEq, Repr

namespace DecoderEntry

def precompiled (d : Definition) (ident : String) : DecoderEntry := ⟨d.name, d.key, .precompiled ident⟩

def pointerLookup (d : Definition) : DecoderEntry := ⟨d.name, d.key, .pointerLookup d.pointer⟩

/-- The reference to the definition. -/
def pointer (e : DecoderEntry) : String := definitionPointer e.key

def isPointerLookup (e : DecoderEntry) : Bool :=
  match e.strategy with
  | .pointerLookup _ => true
  | .precompiled _ => false

end DecoderEntry

/-- File with the compiled validator of a definition. -/
def validatorFile (name : String) : String := name ++ ".validate.js"

/-- Name under which a compiled validator is imported. -/
def validatorIdent (name : String) : String := name ++ "$validate"

end DecoderForge
