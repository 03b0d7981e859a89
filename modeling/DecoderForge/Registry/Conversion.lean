import DecoderForge.Json.Basic
import DecoderForge.Text.Blank
import DecoderForge.Text.Letter

/-!
# DecoderForge — values as data of a type

* `Conversion` — reads a value as data of a type, or says what stands in its place.
-/

namespace DecoderForge

/-- Reads a value as data of a type, or words what is wrong with it. -/
abbrev Conversion (α : Type) := Json → Except String α

namespace Conversion

/-! ## Wording -/

/-- Whether a character shows as itself. -/
def isVisible (c : Char) : Bool :=
  c == ' ' || !(c.toNat < 0x20 || (0x7F ≤ c.toNat && c.toNat < 0xA0) || Text.isBlank c
    || Text.marks.has c.toNat)

/-- A character inside quotes; one that does not show is named by its number. -/
def escapeChar (c : Char) : List Char :=
  if c == '"' || c == '\\' then ['\\', c]
  else if c == '\n' then ['\\', 'n']
  else if c == '\r' then ['\\', 'r']
  else if c == '\t' then ['\\', 't']
  else if c.toNat == 0 then ['\\', '0']
  else if isVisible c then [c]
  else ['\\', 'u', '\x7b'] ++ Nat.toDigits 16 c.toNat ++ ['\x7d']

/-- A text in quotes. -/
def quoteText (s : String) : String := "\"" ++ String.ofList (s.toList.flatMap escapeChar) ++ "\""

/-- A float in positional notation with a point. -/
def floatText (x : Binary64) : String :=
  let s := x.toPlainText
  if s.toList.contains '.' then s else s ++ ".0"

/-- What a value is. -/
def describe : Json → String
  | .null => "null"
  | .bool b => "boolean `" ++ (if b then "true" else "false") ++ "`"
  | .num (.int n) => "integer `" ++ toString n ++ "`"
  | .num (.float x) => "floating point `" ++ floatText x ++ "`"
  | .str s => "string " ++ quoteText s
  | .arr _ => "sequence"
  | .obj _ => "map"

/-- The wording for a value of another type. -/
def wrongType (v : Json) (expected : String) : String :=
  "invalid type: " ++ describe v ++ ", expected " ++ expected

/-- The wording for a value out of range. -/
def wrongValue (v : Json) (expected : String) : String :=
  "invalid value: " ++ describe v ++ ", expected " ++ expected

/-! ## Conversions -/

/-- An integer within bounds. -/
def integerWithin (low high : Int) (expected : String) : Conversion Int
  | .num (.int n) =>
    if low ≤ n && n ≤ high then .ok n else .error (wrongValue (.num (.int n)) expected)
  | v => .error (wrongType v expected)

/-- An unsigned integer of eight bits. -/
def unsigned8 : Conversion Int := integerWithin 0 255 "u8"

/-- A signed integer of 64 bits. -/
def signed64 : Conversion Int := integerWithin Int64.minValue.toInt Int64.maxValue.toInt "i64"

def boolean : Conversion Bool
  | .bool b => .ok b
  | v => .error (wrongType v "a boolean")

def string : Conversion String
  | .str s => .ok s
  | v => .error (wrongType v "a string")

/-- A list of values that are converted each. -/
def list (item : Conversion α) : Conversion (List α)
  | .arr items => items.mapM item
  | v => .error (wrongType v "a sequence")

/-- Null, or a value that is converted. -/
def optional (some' : Conversion α) : Conversion (Option α)
  | .null => .ok none
  | v => (some' v).map some

end Conversion

end DecoderForge
