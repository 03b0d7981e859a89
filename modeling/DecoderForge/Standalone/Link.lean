import DecoderForge.Schema.Pointer
import DecoderForge.Schema.References
import DecoderForge.Standalone.Keyword

/-!
# DecoderForge — linking validator functions

Linking meets the demands of function bodies: it numbers functions and constants in the order in which
they are first needed, and gives each distinct reference one function, so that references may form
cycles.  A demand for a part of a schema is met one level down in the schema; a demand for a reference
that has no function yet uses up one of finitely many references of the document.

* `Standalone.linkReference` — the function for a reference, and the module so far.
-/

namespace DecoderForge.Standalone

open Layout (Call)

/-- A module under construction. -/
structure Linkage where
  /-- Functions by number; one that is still being written is absent. -/
  functions : List (Option (List Call)) := []
  /-- The function of each reference. -/
  references : List (String × Nat) := []
  /-- The values of constants by number. -/
  constants : List String := []

namespace Linkage

/-- Sets a function number aside. -/
def reserve (l : Linkage) : Nat × Linkage :=
  (l.functions.length, { l with functions := l.functions ++ [none] })

/-- Adds a constant. -/
def addConstant (l : Linkage) (value : String) : Nat × Linkage :=
  (l.constants.length, { l with constants := l.constants ++ [value] })

/-- Writes the function with a number. -/
def define (l : Linkage) (n : Nat) (code : List Call) : Linkage :=
  { l with functions := l.functions.set n (some code) }

end Linkage

/-- A step of linking: a result with the module behind it, or a fault. -/
abbrev Linked (α : Type) := Except Fault (α × Linkage)

/-- Meets demands in order. -/
def meetAll (meet : Demand → Linkage → Linked Nat) :
    List Demand → Linkage → Except Fault (List Nat × Linkage)
  | [], l => .ok ([], l)
  | d :: rest, l => do
    let (n, l) ← meet d l
    let (ns, l) ← meetAll meet rest l
    return (n :: ns, l)

/-- The code of a function. -/
def functionCode (n : Nat) (lines : List Call) : List Call :=
  opens ("function " ++ functionName n ++ "(data, path, errors)") :: lines ++ [closes]

/-- Writes the function with a number that has been set aside. -/
def writeFunction (validateFormats : Bool) (meet : Demand → Linkage → Linked Nat) (n : Nat)
    (schema : Json) (location : String) (l : Linkage) : Except Fault (Nat × Linkage) := do
  let piece := body validateFormats schema location
  let (ns, l) ← meetAll meet piece.demands l
  return (n, l.define n (functionCode n (piece.lines ns)))

/-- Meets a demand, given how functions and references are linked. -/
def meetDemand (function : Json → String → Linkage → Linked Nat)
    (reference : String → Linkage → Linked Nat) : Demand → Linkage → Linked Nat
  | .constant value, l => .ok (l.addConstant value)
  | .function schema location, l => function schema location l
  | .reference r, l => reference r l
  | .fault f, _ => .error f

/-- Links the function for a part of a schema; `fuel` bounds the height of the part. -/
def linkPart (validateFormats : Bool) (reference : String → Linkage → Linked Nat) :
    Nat → Json → String → Linkage → Linked Nat
  | 0, schema, location, l =>
    let (n, l) := l.reserve
    writeFunction validateFormats
      (meetDemand (fun _ location _ => .error (.invalid "schema" location "too high")) reference)
      n schema location l
  | fuel + 1, schema, location, l =>
    let (n, l) := l.reserve
    writeFunction validateFormats (meetDemand (linkPart validateFormats reference fuel) reference)
      n schema location l

/-- Links the function for a reference; `fuel` bounds how many references without a function are
followed within one another. -/
def linkReference (root : Json) (validateFormats : Bool) : Nat → String → Linkage → Linked Nat
  | fuel, r, l =>
    match l.references.lookup r with
    | some n => .ok (n, l)
    | none =>
      match fuel with
      | 0 => .error (.unresolved r)
      | fuel + 1 =>
        match resolveLocal? root r with
        | none => .error (.unresolved r)
        | some target =>
          let (n, l) := l.reserve
          let reference := linkReference root validateFormats fuel
          writeFunction validateFormats
            (meetDemand (linkPart validateFormats reference target.height) reference)
            n target r { l with references := (r, n) :: l.references }

/-- The function for a reference in a new module.  Every reference that is followed stands in the
document, save the first. -/
def link (root : Json) (validateFormats : Bool) (pointer : String) : Linked Nat :=
  linkReference root validateFormats (root.references.length + 1) pointer {}

end DecoderForge.Standalone
