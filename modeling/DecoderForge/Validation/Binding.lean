import DecoderForge.Standalone.Module
import DecoderForge.Validation.Reading
import DecoderForge.Validation.WellFormed

/-!
# DecoderForge — validators bound to definitions

A validator for the schema under a pointer is bound when the whole document around it is well formed.
References are looked up only when a value reaches them, so one that leads nowhere shows in the issues.

* `Document.issuesAt` — everything that the schema under a URL finds wrong with a value.
* `BoundValidator` — a validator for one pointer.
* `ValidatorCompiler` — what binds validators and compiles them to modules.
-/

namespace DecoderForge

namespace Document

/-- Everything that the schema under a URL finds wrong with the value at a place.  The number counts
how many references may still be followed one inside another. -/
def issuesAt (d : Document) (dialect : Dialect) : Nat → Url → Constraint.Finder
  | 0, url, _, _ => [⟨"", (Fault.missing url).message⟩]
  | n + 1, url, v, path =>
    match d.resolve url with
    | .error f => [⟨"", f.message⟩]
    | .ok (scope, schema) =>
      match Constraint.ofSchema dialect scope schema with
      | .error reason => [⟨"", reason⟩]
      | .ok c => c.issues (issuesAt d dialect n) v path

/-- How many references can follow each other inside a value: on the way to each part of the value no
reference occurs twice under the same URL, unless they go on for ever. -/
def followLimit (d : Document) (v : Json) : Nat := (v.height + 2) * (d.root.size + 1) ^ 2

/-- Everything that a constraint in the document finds wrong with a value. -/
def issues (d : Document) (dialect : Dialect) (c : Constraint) (v : Json) : List Issue :=
  c.issues (d.issuesAt dialect (d.followLimit v)) v ""

end Document

/-- A validator for the schema under a pointer. -/
structure BoundValidator where
  pointer : String
  /-- Everything that is wrong with a value. -/
  issues : Json → List Issue

/-- Whether nothing is wrong with a value. -/
def BoundValidator.accepts (b : BoundValidator) (v : Json) : Bool := (b.issues v).isEmpty

/-- Binds validators, and compiles bound ones to modules. -/
structure ValidatorCompiler where
  /-- The validator for a pointer in a schema, if there is one. -/
  bind : (schema : Json) → (pointer : String) → Option BoundValidator
  /-- The module of a validator, or why there is none. -/
  standaloneSource : (schema : Json) → BoundValidator → Except String String

namespace ValidatorCompiler

/-- The members of a schema with a reference in place of all that the schema itself demands. -/
def referring (schema : Json) (pointer : String) : Json :=
  .obj (Json.Members.insert (schema.asMembers?.getD []) "$ref" (.str pointer))

/-- The validator for a pointer in a schema.  The pointer leads to something, and the schema is well
formed throughout. -/
def bindPointer? (o : ValidatorOptions) (schema : Json) (pointer : String) : Option BoundValidator :=
  let dialect : Dialect := ⟨o.draft, o.validateFormats⟩
  let root := referring schema pointer
  if (resolveLocal? schema pointer).isNone || !o.draft.describes root then none
  else
    match Document.ofSchema o.draft root with
    | .error _ => none
    | .ok d =>
      match Constraint.ofSchema dialect d.scope root with
      | .error _ => none
      | .ok c => some ⟨pointer, d.issues dialect c⟩

/-- The compiler of this library. -/
def builtIn (o : ValidatorOptions) : ValidatorCompiler where
  bind := bindPointer? o
  standaloneSource := fun schema b =>
    (Standalone.source schema o.validateFormats b.pointer).mapError fun f => f.message

end ValidatorCompiler

end DecoderForge
