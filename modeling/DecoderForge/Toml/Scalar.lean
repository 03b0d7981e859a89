import DecoderForge.Text.Blank
import DecoderForge.Toml.Text
import DecoderForge.Toml.Basic
import DecoderForge.Validation.Moment

/-!
# DecoderForge — numbers and dates of TOML

* `Toml.ofWord?` — the value that a word without quotes stands for.
* `Toml.floatText` — a float as it is written.
-/

namespace DecoderForge.Toml

open Json.Token (isDigit digitValue digitsValue)

/-! ## Numbers -/

/-- Digits with single underscores between them, the underscores left out. -/
def plainDigits? (ok : Char → Bool) : List Char → Option (List Char)
  | [] => none
  | [c] => if ok c then some [c] else none
  | c :: '_' :: rest => if ok c then (plainDigits? ok rest).map (c :: ·) else none
  | c :: rest => if ok c then (plainDigits? ok rest).map (c :: ·) else none

/-- A sign, if there is one, and what follows. -/
def splitSign : List Char → Bool × List Char
  | '-' :: rest => (true, rest)
  | '+' :: rest => (false, rest)
  | s => (false, s)

/-- An integer of 64 bits. -/
def integer? (n : Int) : Option Toml :=
  if Int64.minValue.toInt ≤ n && n ≤ Int64.maxValue.toInt then some (.int n) else none

/-- The value of digits in a base. -/
def inBase? (base : Nat) (s : List Char) : Option Toml := do
  let ds ← plainDigits? (fun c => (Json.Token.hexValue? c).any (· < base)) s
  let n := ds.foldl (fun n c => n * base + (Json.Token.hexValue? c).getD 0) 0
  integer? n

/-- Decimal digits without a leading zero. -/
def decimalDigits? (s : List Char) : Option (List Nat) := do
  let ds ← plainDigits? isDigit s
  match ds with
  | '0' :: _ :: _ => none
  | _ => some (ds.map digitValue)

/-- A decimal integer. -/
def decimal? (s : List Char) : Option Toml := do
  let (negative, s) := splitSign s
  let ds ← decimalDigits? s
  let n : Int := digitsValue ds
  integer? (if negative then -n else n)

/-- The exponent behind its mark; none is zero. -/
def exponent? : List Char → Option Int
  | [] => some 0
  | _ :: s => do
    let (negative, s) := splitSign s
    let ds ← plainDigits? isDigit s
    let n : Int := digitsValue (ds.map digitValue)
    return if negative then -n else n

/-- Exponents beyond this size count as this one: the value is out of range in any case. -/
def exponentLimit : Int := 100000

/-- The float nearest to a decimal; beyond the range there are only negative ones. -/
def roundFloat? (negative : Bool) (digits : Nat) (exponent : Int) : Option Toml :=
  let e := max (-exponentLimit) (min exponentLimit exponent)
  if digits == 0 then some (.float (.finite (Binary64.zero negative)))
  else
    match Binary64.round negative (digits * 10 ^ e.toNat) (10 ^ (-e).toNat) with
    | some x => some (.float (.finite x))
    | none => if negative then some (.float (.infinite true)) else none

/-- A float with a fraction or an exponent. -/
def fractional? (s : List Char) : Option Toml := do
  let (negative, s) := splitSign s
  let isMark (c : Char) : Bool := c == 'e' || c == 'E'
  let number := s.takeWhile fun c => !isMark c
  let tail := s.dropWhile fun c => !isMark c
  let e ← exponent? tail
  match number.dropWhile (· != '.') with
  | [] =>
    if tail.isEmpty then none
    else
      let ds ← decimalDigits? number
      roundFloat? negative (digitsValue ds) e
  | _ :: fraction =>
    let ds ← decimalDigits? (number.takeWhile (· != '.'))
    let fs ← plainDigits? isDigit fraction
    roundFloat? negative (digitsValue (ds ++ fs.map digitValue)) (e - fs.length)

/-- Infinity, or no number, with or without a sign. -/
def special? (s : List Char) : Option Toml :=
  match splitSign s with
  | (negative, ['i', 'n', 'f']) => some (.float (.infinite negative))
  | (_, ['n', 'a', 'n']) => some (.float .nan)
  | _ => none

/-! ## Dates -/

/-- The fraction of a second without zeros at the end; nine places count. -/
def fractionText (digits : List Char) : String :=
  match Text.dropRightWhile (· == '0') (digits.take 9) with
  | [] => ""
  | ds => "." ++ String.ofList ds

/-- Two digits. -/
def twoDigits (n : Nat) : String := (if n < 10 then "0" else "") ++ toString n

/-- The time of day at the front of a text in its usual spelling, and the rest. -/
def readTime? (s : List Char) : Option (String × List Char) := do
  let (hour, s) ← Moment.readNumber? 2 s
  let s ← Moment.dropChar? ':' s
  let (minute, s) ← Moment.readNumber? 2 s
  let s ← Moment.dropChar? ':' s
  let (second, s) ← Moment.readNumber? 2 s
  if hour > 23 || minute > 59 || second > 60 then none
  else
    let text := twoDigits hour ++ ":" ++ twoDigits minute ++ ":" ++ twoDigits second
    match s with
    | '.' :: rest =>
      match rest.takeWhile isDigit with
      | [] => none
      | ds => some (text ++ fractionText ds, rest.dropWhile isDigit)
    | s => some (text, s)

/-- An offset in its usual spelling; none at all is a local time. -/
def offsetText? (s : List Char) : Option String :=
  match s with
  | [] => some ""
  | ['Z'] | ['z'] => some "Z"
  | _ =>
    (Moment.readOffset? s).map fun minutes =>
      (if minutes < 0 then "-" else "+") ++ twoDigits (minutes.natAbs / 60) ++ ":"
        ++ twoDigits (minutes.natAbs % 60)

/-- A date, a time or both. -/
def moment? (s : List Char) : Option Toml :=
  match Moment.readDay? s with
  | some (_, []) => some (.datetime (String.ofList (s.take 10)))
  | some (_, mark :: rest) =>
    if mark == 'T' || mark == 't' || mark == ' ' then do
      let (time, rest) ← readTime? rest
      let offset ← offsetText? rest
      return .datetime (String.ofList (s.take 10) ++ "T" ++ time ++ offset)
    else none
  | none =>
    match readTime? s with
    | some (time, []) => some (.datetime time)
    | _ => none

/-! ## Words -/

/-- Characters of a word without quotes. -/
def isWordChar (c : Char) : Bool := c.isAlphanum || ['_', '+', '-', '.', ':'].contains c

/-- The value that a word stands for. -/
def ofWord? (s : List Char) : Option Toml :=
  match s with
  | ['t', 'r', 'u', 'e'] => some (.bool true)
  | ['f', 'a', 'l', 's', 'e'] => some (.bool false)
  | '0' :: 'x' :: ds => inBase? 16 ds
  | '0' :: 'o' :: ds => inBase? 8 ds
  | '0' :: 'b' :: ds => inBase? 2 ds
  | _ => (((moment? s).or (decimal? s)).or (fractional? s)).or (special? s)

/-- The word at the front of a text, and the rest.  A blank may stand between a date and a time. -/
def splitWord (s : List Char) : List Char × List Char :=
  let word := s.takeWhile isWordChar
  match s.dropWhile isWordChar with
  | ' ' :: a :: b :: ':' :: rest =>
    if (Moment.readDay? word).any (fun d => d.2.isEmpty) && isDigit a && isDigit b then
      let tail := a :: b :: ':' :: rest
      (word ++ ' ' :: tail.takeWhile isWordChar, tail.dropWhile isWordChar)
    else (word, ' ' :: a :: b :: ':' :: rest)
  | rest => (word, rest)

/-- A float as it is written: in positional notation with a point. -/
def floatText : TomlFloat → String
  | .nan => "nan"
  | .infinite negative => if negative then "-inf" else "inf"
  | .finite x =>
    let s := x.toPlainText
    if s.toList.contains '.' then s else s ++ ".0"

end DecoderForge.Toml
