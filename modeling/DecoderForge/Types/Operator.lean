/-!
# DecoderForge — operators and parentheses in type text

Whether the text of a type has an operator outside all brackets and strings decides whether it is put
in parentheses.  The text is read as it stands, comments included.

* `Types.hasTopLevelOperator` — whether `|`, `&` or `=>` stands outside.
* `Types.stripParens?` — the text inside one pair of parentheses around the whole.
-/

namespace DecoderForge.Types

/-- Where a reader of type text stands. -/
structure OperatorScan where
  depth : Int := 0
  /-- The quote of the string that is open. -/
  quote : Option Char := none
  /-- Whether a backslash has just been read inside a string. -/
  escaped : Bool := false
deriving DecidableEq, Repr

namespace OperatorScan

/-- A character inside a string with that quote. -/
def stepString (s : OperatorScan) (q c : Char) : OperatorScan :=
  if s.escaped then { s with escaped := false }
  else if c == '\\' then { s with escaped := true }
  else if c == q then { s with quote := none }
  else s

/-- A character outside strings. -/
def stepOutside (s : OperatorScan) (c : Char) : OperatorScan :=
  if c == '\'' || c == '"' || c == '\x60' then { s with quote := some c }
  else if c == '(' || c == '{' || c == '[' then { s with depth := s.depth + 1 }
  else if c == ')' || c == '}' || c == ']' then { s with depth := s.depth - 1 }
  else s

def step (s : OperatorScan) (c : Char) : OperatorScan :=
  match s.quote with
  | some q => s.stepString q c
  | none => s.stepOutside c

/-- Whether an operator begins with `c` where `next` follows. -/
def operatorAt (s : OperatorScan) (c : Char) (next : Option Char) : Bool :=
  s.quote.isNone && s.depth == 0 && (c == '|' || c == '&' || (c == '=' && next == some '>'))

/-- Whether an operator stands outside in what is still to be read. -/
def findsOperator (s : OperatorScan) : List Char → Bool
  | [] => false
  | c :: rest => s.operatorAt c rest.head? || (s.step c).findsOperator rest

end OperatorScan

/-- Whether an operator stands outside all brackets and strings. -/
def hasTopLevelOperator (text : List Char) : Bool := OperatorScan.findsOperator {} text

/-- Whether parentheses match, `depth` of them being open before. -/
def balancedFrom (depth : Nat) : List Char → Bool
  | [] => depth == 0
  | c :: rest =>
    if c == '(' then balancedFrom (depth + 1) rest
    else if c == ')' then
      match depth with
      | 0 => false
      | d + 1 => balancedFrom d rest
    else balancedFrom depth rest

/-- Whether the parentheses of a text match. -/
def balanced (text : List Char) : Bool := balancedFrom 0 text

/-- The text between a first `(` and a last `)`, if its own parentheses match. -/
def stripParens? (text : List Char) : Option (List Char) :=
  match text with
  | '(' :: rest =>
    if rest.getLast? == some ')' && balanced rest.dropLast then some rest.dropLast else none
  | _ => none

end DecoderForge.Types
