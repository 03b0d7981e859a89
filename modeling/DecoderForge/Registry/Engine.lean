import DecoderForge.Validation.Binding

/-!
# DecoderForge — the shared engine

The engine binds validators on demand.  It starts at the first demand and keeps what it bound.

* `LazyEngine.validator` — the validator for a pointer, and the engine afterwards.
-/

namespace DecoderForge

/-- An engine for one schema. -/
structure LazyEngine where
  schema : Json
  options : ValidatorOptions
  isStarted : Bool := false
  /-- Pointers for which a validator was demanded, with the outcome. -/
  bound : List (String × Option BoundValidator) := []

/-- The validator for a pointer, and the engine afterwards. -/
def LazyEngine.validator (e : LazyEngine) (pointer : String) : Option BoundValidator × LazyEngine :=
  match e.bound.lookup pointer with
  | some known => (known, e)
  | none =>
    let b := (ValidatorCompiler.builtIn e.options).bind e.schema pointer
    (b, { e with isStarted := true, bound := (pointer, b) :: e.bound })

end DecoderForge
