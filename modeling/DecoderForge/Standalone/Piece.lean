import DecoderForge.Json.Printer
import DecoderForge.Layout.Writer

/-!
# DecoderForge — pieces of a validator function

The body of a validator function is made of pieces.  A piece demands things of the module around it,
constants and other functions, and its lines follow from the numbers under which they are supplied.
A piece that cannot be made demands its own fault.
-/

namespace DecoderForge.Standalone

open Layout (Call)

/-- Why a schema has no standalone validator. -/
inductive Fault where
  | unsupported (keyword location : String)
  | invalid (keyword location reason : String)
  | unresolved (reference : String)
deriving DecidableEq, Repr

/-- The wording of a fault. -/
def Fault.message : Fault → String
  | .unsupported keyword location => "unsupported keyword '" ++ keyword ++ "' at " ++ location
  | .invalid keyword location reason =>
    "invalid '" ++ keyword ++ "' at " ++ location ++ ": " ++ reason
  | .unresolved reference => "cannot resolve $ref '" ++ reference ++ "'"

/-- What a piece needs of the module. -/
inductive Demand where
  /-- A constant with that initial value. -/
  | constant (value : String)
  /-- A function for a schema at a location. -/
  | function (schema : Json) (location : String)
  /-- The function for the target of a reference. -/
  | reference (r : String)
  /-- Nothing can meet this demand. -/
  | fault (f : Fault)

/-- A piece: its demands in order, and its lines given a number for each. -/
structure Piece where
  demands : List Demand
  lines : List Nat → List Call

namespace Piece

def empty : Piece := ⟨[], fun _ => []⟩

/-- Lines that demand nothing. -/
def ofCalls (calls : List Call) : Piece := ⟨[], fun _ => calls⟩

def ofFault (f : Fault) : Piece := ⟨[.fault f], fun _ => []⟩

/-- A piece that may have failed. -/
def ofExcept : Except Fault Piece → Piece
  | .ok p => p
  | .error f => ofFault f

/-- Lines that use one demand. -/
def ask (d : Demand) (lines : Nat → List Call) : Piece := ⟨[d], fun ns => lines (ns.headD 0)⟩

/-- One piece after another; numbers are dealt out in order. -/
def append (p q : Piece) : Piece :=
  ⟨p.demands ++ q.demands,
    fun ns => p.lines (ns.take p.demands.length) ++ q.lines (ns.drop p.demands.length)⟩

/-- Pieces in order. -/
def concat : List Piece → Piece
  | [] => empty
  | p :: rest => p.append (concat rest)

/-- Lines between an opening and a closing one; nothing when there are none. -/
def wrap (first last : String) (p : Piece) : Piece :=
  ⟨p.demands, fun ns =>
    match p.lines ns with
    | [] => []
    | calls => .opening first :: calls ++ [.closing last]⟩

end Piece

/-! ## Lines -/

/-- A text as a string literal. -/
def stringLiteral (s : String) : String := Json.Token.quote s

/-- A line that opens a block. -/
def opens (head : String) : Call := .opening (head ++ " \x7b")

/-- A line that closes a block. -/
def closes : Call := .closing "\x7d"

/-- Records an error and marks the value as invalid. -/
def failLines (message : String) : List Call :=
  [.line ("errors.push(\x7b dataPath: path, message: " ++ stringLiteral message ++ " \x7d);"),
    .line "valid = false;"]

/-- Fails with a message where a condition holds. -/
def failWhen (condition message : String) : List Call :=
  opens ("if (" ++ condition ++ ")") :: failLines message ++ [closes]

/-- The name of the function with a number. -/
def functionName (n : Nat) : String := "v" ++ toString n

/-- The name of the constant with a number. -/
def constantName (n : Nat) : String := "c" ++ toString n

/-- Marks the value as invalid where a call rejects. -/
def invalidUnless (call : String) : Call := .line ("if (!" ++ call ++ ") valid = false;")

end DecoderForge.Standalone
