import DecoderForge.Options.Reading
import DecoderForge.Text.Case
import DecoderForge.Toml.Scalar

/-!
# DecoderForge — how layered values are read

Values of a configuration come from files and from the environment, where all is text, so each kind of
scalar may stand for another: text for a flag or a number, a number for a flag, either for a text.

* `Toml.layerRules` — which value stands for which scalar.
* `Toml.ofText` — the scalar that a text of the environment is.
-/

namespace DecoderForge.Toml

/-- A text in small letters. -/
def lowerCased (s : String) : String := String.ofList (Text.lowerCased [] s.toList)

/-- The flag that a word stands for. -/
def flagOfWord? (s : String) : Option Bool :=
  match lowerCased s with
  | "1" | "true" | "on" | "yes" => some true
  | "0" | "false" | "off" | "no" => some false
  | _ => none

/-- The greatest count. -/
def maxCount : Nat := 2 ^ 64 - 1

/-- The count next to a float; a half goes up, and what is out of range becomes the nearest bound. -/
def countOfFloat : TomlFloat → Nat
  | .finite x => if x.negative then 0 else min maxCount ((2 * x.num + x.den) / (2 * x.den))
  | .infinite negative => if negative then 0 else maxCount
  | .nan => 0

/-- The number that digits stand for, behind a plus sign if there is one. -/
def countOfDigits? (s : List Char) : Option Nat :=
  let ds := match s with
    | '+' :: rest => rest
    | s => s
  if ds.isEmpty || !ds.all Json.Token.isDigit then none
  else
    let n := Json.Token.digitsValue (ds.map Json.Token.digitValue)
    if n ≤ maxCount then some n else none

/-- The count that a text stands for. -/
def countOfText? (s : String) : Option Nat :=
  match lowerCased s with
  | "true" | "on" | "yes" => some 1
  | "false" | "off" | "no" => some 0
  | _ => countOfDigits? s.toList

/-- A float in positional notation. -/
def plainFloat : TomlFloat → String
  | .finite x => x.toPlainText
  | .infinite negative => if negative then "-inf" else "inf"
  | .nan => "NaN"

/-- The text that a scalar stands for. -/
def text? : Toml → Option String
  | .str s => some s
  | .datetime s => some s
  | .int n => some (toString n)
  | .float x => some (plainFloat x)
  | .bool b => some (if b then "true" else "false")
  | _ => none

/-- The flag that a scalar stands for. -/
def flag? : Toml → Option Bool
  | .bool b => some b
  | .int n => some (n != 0)
  | .float (.finite x) => some (!x.isZero)
  | .float _ => some true
  | .str s => flagOfWord? s
  | _ => none

/-- The count that a scalar stands for. -/
def count? : Toml → Option Nat
  | .int n => if 0 ≤ n then some n.toNat else none
  | .bool b => some (if b then 1 else 0)
  | .float x => some (countOfFloat x)
  | .str s => countOfText? s
  | _ => none

/-- Which value stands for which scalar.  Words may be in capitals. -/
def layerRules : ScalarRules Toml where
  record? := fun names v =>
    match v with
    | .table members => some members
    | .arr items => some (names.zip items)
    | _ => none
  flag? := flag?
  nat? := count?
  text? := text?
  texts? := fun
    | .arr items => items.mapM text?
    | _ => none
  word? := fun
    | .str s => some (lowerCased s)
    | .table [(k, _)] => some (lowerCased k)
    | _ => none
  table? := fun
    | .table members => some (membersToJson Json.str members)
    | _ => none
  isAbsent := fun _ => false

/-! ## Scalars of the environment -/

/-- The integer that a text is. -/
def integerOfText? (s : List Char) : Option Toml :=
  let (negative, ds) := splitSign s
  if ds.isEmpty || !ds.all Json.Token.isDigit then none
  else
    let n : Int := Json.Token.digitsValue (ds.map Json.Token.digitValue)
    integer? (if negative then -n else n)

/-- The exponent behind its mark; none is zero. -/
def looseExponent? : List Char → Option Int
  | [] => some 0
  | _ :: s =>
    let (negative, ds) := splitSign s
    if ds.isEmpty || !ds.all Json.Token.isDigit then none
    else
      let n : Int := Json.Token.digitsValue (ds.map Json.Token.digitValue)
      some (if negative then -n else n)

/-- The float that a text is; digits may be missing on one side of the point. -/
def floatOfText? (s : List Char) : Option Toml := do
  let (negative, s) := splitSign s
  match lowerCased (String.ofList s) with
  | "inf" | "infinity" => return .float (.infinite negative)
  | "nan" => return .float .nan
  | _ =>
    let isMark (c : Char) : Bool := c == 'e' || c == 'E'
    let e ← looseExponent? (s.dropWhile fun c => !isMark c)
    let number := s.takeWhile fun c => !isMark c
    let whole := number.takeWhile (· != '.')
    let fraction := (number.dropWhile (· != '.')).drop 1
    let ds := whole ++ fraction
    if ds.isEmpty || !ds.all Json.Token.isDigit then none
    else
      let n := Json.Token.digitsValue (ds.map Json.Token.digitValue)
      return (roundFloat? negative n (e - fraction.length)).getD (.float (.infinite negative))

/-- The scalar that a text of the environment is: a flag, an integer, a float, or else a text. -/
def ofText (s : String) : Toml :=
  match lowerCased s with
  | "true" => .bool true
  | "false" => .bool false
  | _ => ((integerOfText? s.toList).or (floatOfText? s.toList)).getD (.str s)

end DecoderForge.Toml
